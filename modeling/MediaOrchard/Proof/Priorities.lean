/-
  Node priorities as texts.

  * `foldlM_setPriority`: the loop of `parse_node_priorities` reads each entry for
    itself (`readEntry`) and merges what it has read;
  * `Encodable`: what the key and the value of a parsed priority are like;
    such an entry is read back from its text (`Encodable.readEntry`);
  * `runController_eq_ok`: `run_controller` returns if no text holds a NUL;
  * `priorities_round_trip`: what was parsed is parsed again from its text, and
    reaches the application through the environment;
  * `priority_options_merge`: repeated options are parsed one by one and merged.
-/
import MediaOrchard.Controller.Priorities
import MediaOrchard.Proof.Allowlist
import MediaOrchard.Proof.Dictionaries
import MediaOrchard.Proof.Rows

namespace MediaOrchard

/-! ## Entries -/

section Entries
variable (int : String → Option ℤ)

/-- The priority of an entry, if there is one. -/
def readEntry (entry : String) : Except String (Option (String × ℤ)) :=
  (setPriority int [] entry).map List.head?

/-- The priorities of the entries, in their order. -/
def readEntries (entries : List String) : Except String (List (String × ℤ)) :=
  (entries.mapM (readEntry int)).map (List.filterMap id)

variable {int}

/-- The loop body reads the entry and sets what it has read. -/
theorem setPriority_eq (d : List (String × ℤ)) (entry : String) :
    setPriority int d entry = (readEntry int entry).map fun kv? => mergeDict d kv?.toList := by
  unfold readEntry setPriority
  dsimp only
  split_ifs
  · rfl
  · split
    · rfl
    · split_ifs
      · rfl
      · split
        · rfl
        · split_ifs <;> rfl

theorem readEntries_cons (entry : String) (entries : List String) :
    readEntries int (entry :: entries) = do
      let kv? ← readEntry int entry
      let p ← readEntries int entries
      return kv?.toList ++ p := by
  unfold readEntries
  rw [List.mapM_cons]
  cases readEntry int entry with
  | error e => rfl
  | ok kv? =>
    cases entries.mapM (readEntry int) with
    | error e => rfl
    | ok kvs => cases kv? <;> rfl

/-- **The loop of `parse_node_priorities`** merges what its entries hold. -/
theorem foldlM_setPriority (d : List (String × ℤ)) (entries : List String) :
    entries.foldlM (setPriority int) d = (readEntries int entries).map (mergeDict d) := by
  induction entries generalizing d with
  | nil => rfl
  | cons entry entries ih =>
    rw [List.foldlM_cons, setPriority_eq, readEntries_cons]
    cases readEntry int entry with
    | error e => rfl
    | ok kv? =>
      show entries.foldlM (setPriority int) (mergeDict d kv?.toList) = _
      rw [ih]
      cases readEntries int entries with
      | error e => rfl
      | ok p => exact congrArg Except.ok mergeDict_append.symm

theorem readEntries_append (entries entries' : List String) :
    readEntries int (entries ++ entries') = do
      let p ← readEntries int entries
      let q ← readEntries int entries'
      return p ++ q := by
  unfold readEntries
  rw [List.mapM_append]
  cases entries.mapM (readEntry int) with
  | error e => rfl
  | ok kvs =>
    cases entries'.mapM (readEntry int) with
    | error e => rfl
    | ok kvs' => exact congrArg Except.ok List.filterMap_append

theorem pySplit_empty (sep : Char) : pySplit sep "" = [""] := by
  simp [pySplit]

/-- The early return for the empty text makes no difference. -/
theorem parseNodePriorities_some (raw : String) : parseNodePriorities int (some raw) =
    (readEntries int (pySplit ',' raw)).map (mergeDict []) := by
  rw [← foldlM_setPriority]
  show (if raw = "" then _ else _) = _
  split_ifs with h
  · rw [h, pySplit_empty]
    rfl
  · rfl

end Entries

/-! ## What was parsed -/

theorem pyPartition_fst (sep : Char) (s : String) :
    (pyPartition sep s).1 = String.ofList (Text.partition sep s.toList).1 := by
  unfold pyPartition
  cases Text.partition sep s.toList
  rfl

/-- What the key and the value of a parsed priority are like. -/
structure Encodable (kv : String × ℤ) : Prop where
  nonempty : kv.1 ≠ ""
  stripped : pyStrip kv.1 = kv.1
  no_comma : ',' ∉ kv.1.toList
  no_equals : '=' ∉ kv.1.toList
  nonneg : 0 ≤ kv.2

variable {int : String → Option ℤ}

/-- What an entry holds: its key is a part of the entry. -/
theorem readEntry_ok {entry : String} {kv : String × ℤ}
    (h : readEntry int entry = .ok (some kv)) :
    kv.1 ≠ "" ∧ pyStrip kv.1 = kv.1 ∧ (∀ c ∈ kv.1.toList, c ∈ entry.toList ∧ c ≠ '=') ∧
      0 ≤ kv.2 ∧ ∃ value, int value = some kv.2 := by
  unfold readEntry setPriority at h
  dsimp only at h
  split_ifs at h with hempty
  · cases h
  cases hp : pyPartition '=' (pyStrip entry) with
  | mk key value? =>
  cases value? with
  | none => rw [hp] at h; cases h
  | some value =>
  rw [hp] at h
  dsimp only at h
  split_ifs at h with hkey
  · cases h
  cases hi : int value with
  | none => rw [hi] at h; cases h
  | some n =>
  rw [hi] at h
  dsimp only at h
  split_ifs at h with hneg
  · cases h
  · cases h
    have hkeychars : key = String.ofList (Text.partition '=' (pyStrip entry).toList).1 := by
      rw [← pyPartition_fst, hp]
    have hsub : ∀ c ∈ (pyStrip key).toList,
        c ∈ (Text.partition '=' (pyStrip entry).toList).1 := by
      intro c hc
      rw [toList_pyStrip] at hc
      have hc' := Text.trim_subset _ _ hc
      rwa [hkeychars, String.toList_ofList] at hc'
    refine ⟨hkey, pyStrip_pyStrip key, fun c hc => ⟨?_, ?_⟩, not_lt.1 hneg, value, hi⟩
    · have hc' := Text.partition_subset _ _ (hsub c hc)
      rw [toList_pyStrip] at hc'
      exact Text.trim_subset _ _ hc'
    · rintro rfl
      exact Text.not_mem_partition _ _ (hsub _ hc)

/-- The text of a priority. -/
def priorityText (kv : String × ℤ) : String := kv.1 ++ "=" ++ toString kv.2

theorem Encodable.toList_text {kv : String × ℤ} (h : Encodable kv) :
    (priorityText kv).toList = kv.1.toList ++ '=' :: Text.digits kv.2.toNat := by
  obtain ⟨key, n⟩ := kv
  obtain ⟨m, rfl⟩ := Int.eq_ofNat_of_zero_le h.nonneg
  rw [priorityText, String.toList_append, String.toList_append, List.append_assoc]
  rfl

/-- **A parsed priority is read back from its text.** -/
theorem Encodable.readEntry {kv : String × ℤ} (h : Encodable kv)
    (hint : int (toString kv.2) = some kv.2) : readEntry int (priorityText kv) = .ok (some kv) := by
  have hchars := h.toList_text
  have hne : kv.1.toList ≠ [] := fun hnil => h.nonempty (String.toList_eq_nil_iff.1 hnil)
  have htrim : Text.Trimmed pyIsSpace (kv.1.toList ++ '=' :: Text.digits kv.2.toNat) := by
    refine ⟨fun hl => ?_, fun hl => ?_⟩
    · rw [List.head_append_of_ne_nil hne]
      have hk := (pyStrip_trimmed kv.1).head
      rw [h.stripped] at hk
      exact hk hne
    · rw [List.getLast_append_of_ne_nil _ (List.cons_ne_nil _ _),
        List.getLast_cons (Text.digits_ne_nil _)]
      exact not_pyIsSpace_of_isDigit (Text.isDigit_of_mem_digits (List.getLast_mem _))
  have hitem : pyStrip (priorityText kv) = priorityText kv := pyStrip_of_trimmed (hchars ▸ htrim)
  have hvalue : String.ofList (Text.digits kv.2.toNat) = toString kv.2 := by
    rw [Text.digits, String.ofList_toList]
    exact congrArg toString (Int.toNat_of_nonneg h.nonneg)
  have hpart : pyPartition '=' (priorityText kv) = (kv.1, some (toString kv.2)) := by
    unfold pyPartition
    rw [hchars, Text.partition_append_cons h.no_equals]
    dsimp only
    rw [Option.map_some, hvalue, String.ofList_toList]
  have hsome : priorityText kv ≠ "" := fun hnil => by
    rw [hnil] at hchars
    simp at hchars
  unfold MediaOrchard.readEntry setPriority
  dsimp only
  rw [hitem, if_neg hsome, hpart]
  dsimp only
  rw [h.stripped, if_neg h.nonempty, hint]
  dsimp only
  rw [if_neg (not_lt.2 h.nonneg)]
  rfl

/-! ## Parsing what was formatted -/

theorem mem_readEntries {entries : List String} {p : List (String × ℤ)} {kv : String × ℤ}
    (h : readEntries int entries = .ok p) (hkv : kv ∈ p) :
    ∃ entry ∈ entries, MediaOrchard.readEntry int entry = .ok (some kv) := by
  induction entries generalizing p with
  | nil => cases h; cases hkv
  | cons entry entries ih =>
    rw [readEntries_cons] at h
    cases hentry : MediaOrchard.readEntry int entry with
    | error e => rw [hentry] at h; cases h
    | ok kv? =>
    cases hrest : readEntries int entries with
    | error e => rw [hentry, hrest] at h; cases h
    | ok q =>
    rw [hentry, hrest] at h
    cases h
    rcases List.mem_append.1 hkv with hkv | hkv
    · exact ⟨entry, List.mem_cons_self, by rw [hentry, Option.mem_toList.1 hkv]⟩
    · obtain ⟨entry', hmem, hread⟩ := ih hrest hkv
      exact ⟨entry', List.mem_cons_of_mem _ hmem, hread⟩

/-- What a text was parsed to: a dictionary of encodable priorities, whose keys are
    parts of the text. -/
theorem parseNodePriorities_ok {raw : String} {p : List (String × ℤ)}
    (h : parseNodePriorities int (some raw) = .ok p) :
    (p.map Prod.fst).Nodup ∧ ∀ kv ∈ p, Encodable kv ∧ (∀ c ∈ kv.1.toList, c ∈ raw.toList) ∧
      ∃ value, int value = some kv.2 := by
  rw [parseNodePriorities_some] at h
  cases hq : readEntries int (pySplit ',' raw) with
  | error e => rw [hq] at h; cases h
  | ok q =>
    rw [hq] at h
    cases h
    refine ⟨mergeDict_nodup List.nodup_nil, fun kv hkv => ?_⟩
    obtain ⟨entry, hentry, hread⟩ :=
      mem_readEntries hq ((mem_mergeDict hkv).resolve_left List.not_mem_nil)
    obtain ⟨piece, hpiece, rfl⟩ := List.mem_map.1 hentry
    obtain ⟨hne, hstrip, hchars, hnonneg, hint⟩ := readEntry_ok hread
    simp only [String.toList_ofList] at hchars
    exact ⟨⟨hne, hstrip, fun hc => Text.not_mem_piece hpiece (hchars _ hc).1,
      fun hc => (hchars _ hc).2 rfl, hnonneg⟩,
      fun c hc => Text.piece_subset hpiece (hchars c hc).1, hint⟩

variable {p : List (String × ℤ)}

theorem readEntries_texts (h : ∀ kv ∈ p, Encodable kv ∧ int (toString kv.2) = some kv.2) :
    readEntries int (p.map priorityText) = .ok p := by
  induction p with
  | nil => rfl
  | cons kv p ih =>
    obtain ⟨hkv, hint⟩ := h kv List.mem_cons_self
    rw [List.map_cons, readEntries_cons, hkv.readEntry hint,
      ih fun kv' hkv' => h kv' (List.mem_cons_of_mem _ hkv')]
    rfl

/-- The text of the priorities is cut into the texts of the priorities. -/
theorem pySplit_format (hp : p ≠ []) (h : ∀ kv ∈ p, Encodable kv) :
    pySplit ',' (formatNodePriorities p) = p.map priorityText := by
  have hchars : (formatNodePriorities p).toList =
      [','].intercalate ((p.map priorityText).map String.toList) := by
    rw [formatNodePriorities, String.toList_intercalate]
    rfl
  unfold pySplit
  rw [hchars, List.splitOn_intercalate]
  · rw [List.map_map]
    exact List.map_id'' (fun s => String.ofList_toList) _
  · intro l hl
    obtain ⟨s, hs, rfl⟩ := List.mem_map.1 hl
    obtain ⟨kv, hkv, rfl⟩ := List.mem_map.1 hs
    rw [(h kv hkv).toList_text]
    intro hmem
    rcases List.mem_append.1 hmem with hmem | hmem
    · exact (h kv hkv).no_comma hmem
    · rcases List.mem_cons.1 hmem with hmem | hmem
      · cases hmem
      · cases Text.isDigit_of_mem_digits hmem
  · simpa using hp

/-- A character of the priorities' text is one of a priority's, or a comma. -/
theorem mem_format {c : Char} (h : c ∈ (formatNodePriorities p).toList) (hc : c ≠ ',') :
    ∃ kv ∈ p, c ∈ (priorityText kv).toList := by
  rw [formatNodePriorities, String.toList_intercalate] at h
  obtain ⟨l, hl, hcl⟩ := (Text.mem_intercalate h).resolve_left (by simpa using hc)
  obtain ⟨s, hs, rfl⟩ := List.mem_map.1 hl
  obtain ⟨kv, hkv, rfl⟩ := List.mem_map.1 hs
  exact ⟨kv, hkv, hcl⟩

/-- A dictionary of encodable priorities is parsed from its text. -/
theorem parseNodePriorities_format (hnd : (p.map Prod.fst).Nodup)
    (h : ∀ kv ∈ p, Encodable kv ∧ int (toString kv.2) = some kv.2) :
    parseNodePriorities int (some (formatNodePriorities p)) = .ok p := by
  by_cases hp : p = []
  · subst hp
    rfl
  · rw [parseNodePriorities_some, pySplit_format hp fun kv hkv => (h kv hkv).1,
      readEntries_texts h]
    exact congrArg Except.ok (mergeDict_new hnd)

/-- What was parsed is parsed again from its text, if `int()` reads back what `str()` writes. -/
theorem parseNodePriorities_parsed
    (hint : ∀ value n, int value = some n → int (toString n) = some n) {raw : String}
    (hp : parseNodePriorities int (some raw) = .ok p) :
    parseNodePriorities int (some (formatNodePriorities p)) = .ok p := by
  obtain ⟨hnd, hkvs⟩ := parseNodePriorities_ok hp
  refine parseNodePriorities_format hnd fun kv hkv => ?_
  obtain ⟨henc, -, value, hvalue⟩ := hkvs kv hkv
  exact ⟨henc, hint value kv.2 hvalue⟩

/-! ## The environment -/

/-- The environment that `run_controller` prepares. -/
def ControllerRuntimeConfig.environ (config : ControllerRuntimeConfig) (h : Host) (env : Environ) :
    Environ := fun key =>
  if key = "MEDIAORCHARD_NODE_PRIORITIES" then
    if config.nodePriorities ≠ [] then some (formatNodePriorities config.nodePriorities) else none
  else if key = "MEDIAORCHARD_SHARED_ROOT" then some (h.resolve config.sharedRoot).str
  else if key = "MEDIAORCHARD_API_KEY_HASH" then some config.apiKeyHash
  else if key = "MEDIAORCHARD_DATABASE_URL" then some config.databaseUrl
  else env key

/-- No text that `run_controller` sets holds a NUL. -/
structure ControllerRuntimeConfig.NoNul (config : ControllerRuntimeConfig) (h : Host) : Prop where
  databaseUrl : '\x00' ∉ config.databaseUrl.toList
  apiKeyHash : '\x00' ∉ config.apiKeyHash.toList
  sharedRoot : '\x00' ∉ (h.resolve config.sharedRoot).str.toList
  nodePriorities : '\x00' ∉ (formatNodePriorities config.nodePriorities).toList

theorem Environ.set_ok {env env' : Environ} {key value : String}
    (h : env.set key value = .ok env') : '\x00' ∉ value.toList := by
  unfold Environ.set at h
  split_ifs at h with hnul
  exact hnul

/-- **What `run_controller` does**: without a NUL it starts the application in its environment,
    and otherwise it raises. -/
theorem runController_eq_ok {h : Host} {config : ControllerRuntimeConfig} {env env' : Environ}
    {call : UvicornRun} : runController h config env = .ok (env', call) ↔
      config.NoNul h ∧ env' = config.environ h env ∧
      call = ⟨"mediaorchard.controller.main:app", config.host, config.port, config.logLevel,
        config.envFile⟩ := by
  have hreturns : config.NoNul h → runController h config env = .ok (config.environ h env,
      ⟨"mediaorchard.controller.main:app", config.host, config.port, config.logLevel,
        config.envFile⟩) := by
    intro hnul
    unfold runController
    simp only [Environ.set, if_neg hnul.databaseUrl, if_neg hnul.apiKeyHash,
      if_neg hnul.sharedRoot, if_neg hnul.nodePriorities, bind, Except.bind]
    split_ifs with hp
    all_goals
      refine congrArg (fun environ => Except.ok (environ, _)) (funext fun key => ?_)
      simp only [ControllerRuntimeConfig.environ, Environ.pop, hp,
        not_false_eq_true, if_true, if_false, ne_eq]
  constructor
  · intro hr
    have hnul : config.NoNul h := by
      unfold runController at hr
      obtain ⟨env₁, h₁, hr⟩ := bind_ok hr
      obtain ⟨env₂, h₂, hr⟩ := bind_ok hr
      obtain ⟨env₃, h₃, hr⟩ := bind_ok hr
      refine ⟨Environ.set_ok h₁, Environ.set_ok h₂, Environ.set_ok h₃, ?_⟩
      dsimp only at hr
      split_ifs at hr with hp
      · obtain ⟨env₄, h₄, -⟩ := bind_ok hr
        exact Environ.set_ok h₄
      · rw [not_not.1 hp]
        decide
    rw [hreturns hnul] at hr
    obtain ⟨rfl, rfl⟩ := Prod.mk.inj (Except.ok.inj hr)
    exact ⟨hnul, rfl, rfl⟩
  · rintro ⟨hnul, rfl, rfl⟩
    exact hreturns hnul

/-- The CLI parses one text, of the options or of its variable. -/
theorem cliNodePriorities_ok {env : Environ} {values : Option (List String)}
    (h : cliNodePriorities int env values = .ok p) :
    ∃ raw, parseNodePriorities int (some raw) = .ok p ∧
      ((∀ text ∈ values.getD [] ++ (env "MEDIAORCHARD_NODE_PRIORITIES").toList,
        '\x00' ∉ text.toList) → '\x00' ∉ raw.toList) := by
  unfold cliNodePriorities at h
  dsimp only at h
  split_ifs at h
  · refine ⟨_, h, fun hnul => ?_⟩
    cases hvar : env "MEDIAORCHARD_NODE_PRIORITIES" with
    | none => decide
    | some text => exact hnul text (by simp [hvar])
  · refine ⟨_, h, fun hnul hmem => ?_⟩
    rw [String.toList_intercalate] at hmem
    obtain ⟨l, hl, hc⟩ := (Text.mem_intercalate hmem).resolve_left (by decide)
    obtain ⟨text, htext, rfl⟩ := List.mem_map.1 hl
    exact hnul text (List.mem_append_left _ htext) hc

/-- A NUL in the text of the priorities was in the text they were parsed from. -/
theorem formatNodePriorities_nul {raw : String}
    (hp : parseNodePriorities int (some raw) = .ok p) (hnul : '\x00' ∉ raw.toList) :
    '\x00' ∉ (formatNodePriorities p).toList := by
  intro hmem
  obtain ⟨kv, hkv, hc⟩ := mem_format hmem (by decide)
  obtain ⟨henc, hsub, -⟩ := (parseNodePriorities_ok hp).2 kv hkv
  rw [henc.toList_text] at hc
  rcases List.mem_append.1 hc with hc | hc
  · exact hnul (hsub _ hc)
  · rcases List.mem_cons.1 hc with hc | hc
    · cases hc
    · cases Text.isDigit_of_mem_digits hc

/-- The application that is loaded in the environment of `run_controller`. -/
theorem controllerApp_environ (h : Host) (sha256Hex : Sha256)
    (config : ControllerRuntimeConfig) (env : Environ)
    (hp : parseNodePriorities int (some (formatNodePriorities config.nodePriorities)) =
      .ok config.nodePriorities) :
    controllerApp h sha256Hex int (config.environ h env) =
      .ok ⟨sha256Hex, config.apiKeyHash, h.resolve config.sharedRoot, config.nodePriorities⟩ := by
  have hparsed : parseNodePriorities int
      (config.environ h env "MEDIAORCHARD_NODE_PRIORITIES") = .ok config.nodePriorities := by
    show parseNodePriorities int (if config.nodePriorities ≠ [] then _ else _) = _
    split_ifs with hne
    · exact hp
    · rw [not_not.1 hne]
      rfl
  unfold controllerApp
  rw [hparsed]
  show Except.ok (createApp h sha256Hex config.apiKeyHash (h.resolve config.sharedRoot).str
    config.nodePriorities) = _
  rw [createApp]
  exact congrArg (fun root => Except.ok (App.mk _ _ root _)) (h.resolve_str (List.prefix_refl _))

/-- **Node priorities survive the trip through the environment**, if `int()` reads
    back what `str()` writes.  What was parsed is parsed again from its text; its
    keys and values are plain; and what the CLI hands to `run_controller` is what
    the application that it starts gets: it does start one if no text holds a NUL. -/
theorem priorities_round_trip
    (hint : ∀ value n, int value = some n → int (toString n) = some n) :
    (∀ raw p, parseNodePriorities int (some raw) = .ok p →
      parseNodePriorities int (some (formatNodePriorities p)) = .ok p ∧
      (∀ kv ∈ p, kv.1 ≠ "" ∧ pyStrip kv.1 = kv.1 ∧ ',' ∉ kv.1.toList ∧ '=' ∉ kv.1.toList ∧
        0 ≤ kv.2) ∧
      ('\x00' ∉ raw.toList → '\x00' ∉ (formatNodePriorities p).toList)) ∧
    ∀ (h : Host) (sha256Hex : Sha256) (config : ControllerRuntimeConfig)
      (env env₀ : Environ) (values : Option (List String)),
      cliNodePriorities int env₀ values = .ok config.nodePriorities →
      (∀ env' call, runController h config env = .ok (env', call) →
        call.app = "mediaorchard.controller.main:app" ∧
        ∃ app, controllerApp h sha256Hex int env' = .ok app ∧
          app.nodePriorities = config.nodePriorities) ∧
      ((∀ text ∈ values.getD [] ++ (env₀ "MEDIAORCHARD_NODE_PRIORITIES").toList,
          '\x00' ∉ text.toList) →
        '\x00' ∉ config.databaseUrl.toList → '\x00' ∉ config.apiKeyHash.toList →
        '\x00' ∉ (h.resolve config.sharedRoot).str.toList →
        ∃ env' call, runController h config env = .ok (env', call)) := by
  refine ⟨fun raw p hp => ⟨parseNodePriorities_parsed hint hp, fun kv hkv => ?_, formatNodePriorities_nul hp⟩,
    fun h sha256Hex config env env₀ values hcli => ?_⟩
  · obtain ⟨henc, -⟩ := (parseNodePriorities_ok hp).2 kv hkv
    exact ⟨henc.nonempty, henc.stripped, henc.no_comma, henc.no_equals, henc.nonneg⟩
  · obtain ⟨raw, hraw, hrawNul⟩ := cliNodePriorities_ok hcli
    refine ⟨fun env' call hrun => ?_, fun htexts hurl hhash hroot => ?_⟩
    · obtain ⟨-, rfl, rfl⟩ := runController_eq_ok.1 hrun
      exact ⟨rfl, _, controllerApp_environ h sha256Hex config env (parseNodePriorities_parsed hint hraw), rfl⟩
    · exact ⟨_, _, runController_eq_ok.2
        ⟨⟨hurl, hhash, hroot, formatNodePriorities_nul hraw (hrawNul htexts)⟩, rfl, rfl⟩⟩

/-- `int()` on plain decimal digits -/
def intOfDigits (value : String) : Option ℤ := (Text.readDigits value.toList).map Int.ofNat

theorem intOfDigits_toString (value : String) (n : ℤ) (h : intOfDigits value = some n) :
    intOfDigits (toString n) = some n := by
  obtain ⟨m, -, rfl⟩ := Option.map_eq_some_iff.1 h
  exact congrArg (Option.map Int.ofNat) (Text.readDigits_digits m)

/-- A configuration of the Controller with the priorities of two nodes. -/
def sampleRuntime : ControllerRuntimeConfig where
  host := "0.0.0.0"
  port := 8765
  databaseUrl := "sqlite:///mediaorchard.db"
  apiKeyHash := sampleApp.apiKeyHash
  sharedRoot := "/Volumes/MediaOrchard"
  nodePriorities := [("10.0.0.1", 30), ("mac mini", 1)]

/-- Two options with a duplicate key and inner spaces reach the application. -/
theorem priorities_round_trip_sample :
    parseNodePriorities intOfDigits (some (formatNodePriorities sampleRuntime.nodePriorities)) =
      .ok sampleRuntime.nodePriorities ∧
    cliNodePriorities intOfDigits (fun _ => none)
      (some [" 10.0.0.1=20,, mac mini =1", "10.0.0.1 =30"]) = .ok sampleRuntime.nodePriorities ∧
    ∃ env' call app, runController plainHost sampleRuntime (fun _ => none) = .ok (env', call) ∧
      controllerApp plainHost sampleSha256 intOfDigits env' = .ok app ∧
      app.nodePriorities = [("10.0.0.1", 30), ("mac mini", 1)] := by
  have hcli : cliNodePriorities intOfDigits (fun _ => none)
      (some [" 10.0.0.1=20,, mac mini =1", "10.0.0.1 =30"]) = .ok sampleRuntime.nodePriorities := by
    decide +kernel
  obtain ⟨hparsed, hstarted⟩ := priorities_round_trip intOfDigits_toString
  obtain ⟨hserved, hreturns⟩ := hstarted plainHost sampleSha256 sampleRuntime (fun _ => none)
    (fun _ => none) (some [" 10.0.0.1=20,, mac mini =1", "10.0.0.1 =30"]) hcli
  obtain ⟨env', call, hrun⟩ := hreturns (by decide) (by decide) (by decide) (by decide +kernel)
  obtain ⟨-, app, happ, hpriorities⟩ := hserved env' call hrun
  exact ⟨(hparsed " 10.0.0.1=20,, mac mini =1,10.0.0.1 =30" _ (by decide +kernel)).1, hcli, env', call,
    app, hrun, happ, hpriorities⟩

/-! ## Repeated options -/

section Merge

/-- The texts joined by commas are cut as they are cut alone. -/
theorem pySplit_intercalate {values : List String} (h : values ≠ []) :
    pySplit ',' (",".intercalate values) = values.flatMap (pySplit ',') := by
  unfold pySplit
  rw [String.toList_intercalate]
  show List.map _ (([','].intercalate _).splitOn ',') = _
  rw [Text.splitOn_intercalate_splitOn ',' (by simpa using h), List.flatMap_map,
    List.map_flatMap]

/-- The texts are parsed one by one and merged. -/
theorem readEntries_flatMap (d : List (String × ℤ)) (values : List String) :
    (readEntries int (values.flatMap (pySplit ','))).map (mergeDict d) =
      (values.mapM fun v => parseNodePriorities int (some v)).map (List.foldl mergeDict d) := by
  induction values generalizing d with
  | nil => rfl
  | cons v values ih =>
    rw [List.flatMap_cons, readEntries_append, List.mapM_cons, parseNodePriorities_some]
    cases readEntries int (pySplit ',' v) with
    | error e => rfl
    | ok p =>
      have hmerge := ih (mergeDict d p)
      cases hq : readEntries int (values.flatMap (pySplit ',')) with
      | error e =>
        rw [hq] at hmerge
        cases hps : values.mapM (fun v => parseNodePriorities int (some v)) with
        | error e' => rw [hps] at hmerge; exact hmerge
        | ok ps => rw [hps] at hmerge; cases hmerge
      | ok q =>
        rw [hq] at hmerge
        cases hps : values.mapM (fun v => parseNodePriorities int (some v)) with
        | error e' => rw [hps] at hmerge; cases hmerge
        | ok ps =>
          rw [hps] at hmerge
          show Except.ok (mergeDict d (p ++ q)) =
            .ok (ps.foldl mergeDict (mergeDict d (mergeDict [] p)))
          rw [mergeDict_append, mergeDict_mergeDict]
          exact hmerge

/-- What is parsed is a dictionary. -/
theorem parseNodePriorities_nodup {raw : String} {p : List (String × ℤ)}
    (h : parseNodePriorities int (some raw) = .ok p) : (p.map Prod.fst).Nodup :=
  (parseNodePriorities_ok h).1

/-- Of several dictionaries the last that has the key gives its value. -/
theorem lookup_foldl_mergeDict {ps : List (List (String × ℤ))} {d : List (String × ℤ)}
    (h : ∀ p ∈ ps, (p.map Prod.fst).Nodup) (key : String) :
    (ps.foldl mergeDict d).lookup key =
      (ps.reverse.findSome? fun p => p.lookup key).or (d.lookup key) := by
  induction ps generalizing d with
  | nil => rfl
  | cons p ps ih =>
    rw [List.foldl_cons, ih fun q hq => h q (List.mem_cons_of_mem p hq),
      lookup_mergeDict (h p List.mem_cons_self), List.reverse_cons, List.findSome?_append,
      Option.or_assoc]
    simp

theorem mapM_ok_iff {α β ε : Type} {f : α → Except ε β} {l : List α} {l' : List β} :
    l.mapM f = .ok l' ↔ List.Forall₂ (fun a b => f a = .ok b) l l' := by
  induction l generalizing l' with
  | nil =>
    constructor
    · intro h
      cases h
      exact .nil
    · intro h
      cases h
      rfl
  | cons a l ih =>
    rw [List.mapM_cons]
    constructor
    · intro h
      obtain ⟨b, hb, h⟩ := bind_ok h
      obtain ⟨bs, hbs, h⟩ := bind_ok h
      cases h
      exact .cons hb (ih.1 hbs)
    · intro h
      cases h with
      | cons hb hbs =>
        rw [hb, ih.2 hbs]
        rfl

theorem forall₂_mem {α β : Type} {R : α → β → Prop} {l : List α} {l' : List β}
    (h : List.Forall₂ R l l') {a : α} (ha : a ∈ l) : ∃ b, R a b := by
  induction h with
  | nil => cases ha
  | cons hab _ ih =>
    rcases List.mem_cons.1 ha with rfl | ha
    exacts [⟨_, hab⟩, ih ha]

/-- **Repeated options are merged.**  The texts, joined by commas as the CLI joins
    them, are accepted if and only if each is; what they give is the merge of what
    each gives, in their order, where the last text with a key gives its value. -/
theorem priority_options_merge (values : List String) (h : ",".intercalate values ≠ "") :
    (∀ env, cliNodePriorities int env (some values) =
      parseNodePriorities int (some (",".intercalate values))) ∧
    ((∃ p, parseNodePriorities int (some (",".intercalate values)) = .ok p) ↔
      ∀ v ∈ values, ∃ p, parseNodePriorities int (some v) = .ok p) ∧
    ∀ ps, List.Forall₂ (fun v p => parseNodePriorities int (some v) = .ok p) values ps →
      parseNodePriorities int (some (",".intercalate values)) = .ok (ps.foldl mergeDict []) ∧
      ∀ key, (ps.foldl mergeDict []).lookup key =
        ps.reverse.findSome? fun p => p.lookup key := by
  have hne : values ≠ [] := by
    rintro rfl
    exact h rfl
  have hparse : parseNodePriorities int (some (",".intercalate values)) =
      (values.mapM fun v => parseNodePriorities int (some v)).map (List.foldl mergeDict []) := by
    rw [parseNodePriorities_some, pySplit_intercalate hne, readEntries_flatMap]
  refine ⟨fun env => if_neg h, ?_, fun ps hps => ⟨?_, fun key => ?_⟩⟩
  · rw [hparse]
    constructor
    · rintro ⟨p, hp⟩ v hv
      cases hps : values.mapM fun v => parseNodePriorities int (some v) with
      | error e => rw [hps] at hp; cases hp
      | ok ps =>
        exact forall₂_mem (mapM_ok_iff.1 hps) hv
    · intro hall
      choose! q hq using hall
      have hps : List.Forall₂ (fun v p => parseNodePriorities int (some v) = .ok p) values
          (values.map q) :=
        List.forall₂_map_right_iff.2 (List.forall₂_same.2 hq)
      exact ⟨_, by rw [mapM_ok_iff.2 hps]; rfl⟩
  · rw [hparse, mapM_ok_iff.2 hps]
    rfl
  · rw [lookup_foldl_mergeDict]
    · exact Option.or_none
    · intro p hp
      obtain ⟨v, hv⟩ := forall₂_mem hps.flip hp
      exact parseNodePriorities_nodup hv

theorem priority_options_merge_sample :
    parseNodePriorities intOfDigits (some (",".intercalate ["a=1,b=2", "", " a =3,"])) =
      .ok [("a", 3), ("b", 2)] :=
  ((@priority_options_merge intOfDigits ["a=1,b=2", "", " a =3,"] (by decide)).2.2
    [[("a", 1), ("b", 2)], [], [("a", 3)]] (by decide +kernel)).1

end Merge

end MediaOrchard
