/-
  Tool calls are confined, and what a rejected call leaves behind.

  * `ToolArgv`: the three argvs, with the paths granted for their arguments;
  * `execute_wp`: one weakest precondition for both results: the operations of a
    call are `Permitted`, and a rejected call changes nothing unless its language
    is found to be bad too late (`LanguageTooLate`);
  * `tool_calls_confined`, `rejected_call_traceless`: the results.
-/
import MediaOrchard.Worker.Executor
import MediaOrchard.Proof.Storage

namespace MediaOrchard

open Posix Effects

variable (h : Host) (context : ToolExecutionContext) (argsJson : Json)

/-! ## What a call may do -/

/-- The argvs of the default tools, the files they read existing on `d`. -/
inductive ToolArgv (d : Disk) : String → List String → Prop
  | probe {s p} (hs : requiredStr argsJson "input_file" = .ok s)
      (hp : Granted h s [context.sharedRoot] p) (he : (d.entry p.parts).isSome) :
      ToolArgv d "probe_media" ["ffprobe", "-v", "error", "-print_format", "json", "-show_format",
        "-show_streams", p.str]
  | extract {s p s' p'} (hs : requiredStr argsJson "input_file" = .ok s)
      (hp : Granted h s [context.sharedRoot] p) (he : (d.entry p.parts).isSome)
      (hs' : requiredStr argsJson "output_audio" = .ok s')
      (hp' : Granted h s' [context.workDir, context.outputDir] p') :
      ToolArgv d "extract_audio"
        ["ffmpeg", "-y", "-i", p.str, "-vn", "-ac", "1", "-ar", "16000", p'.str]
  | transcribe {s p s' p' language} (hs : requiredStr argsJson "audio_file" = .ok s)
      (hp : Granted h s [context.sharedRoot, context.workDir] p)
      (he : (d.entry p.parts).isSome) (hs' : requiredStr argsJson "transcript_dir" = .ok s')
      (hp' : Granted h s' [context.workDir, context.outputDir] p')
      (hl : languageArg argsJson = .ok language) (hne : language ≠ "") :
      ToolArgv d "transcribe_audio"
        ["mlx-whisper", p.str, "--language", language, "--output-dir", p'.str]

/-- The directories a call may create: on the way to or below `work_dir` and
    `output_dir`, and on the way to `log_dir`. -/
def InZone (q : ResolvedPath) : Prop :=
  (∃ root ∈ [context.workDir, context.outputDir], q <+: h.resolve root ∨ h.resolve root <+: q) ∨
    ∃ a : PurePath, a.Above (PurePath.ofString context.logDir) ∧ h.real a = q

/-- The operations of a call of `toolName`. -/
def Permitted (toolName : String) : FileOp → Machine → Prop
  | .exist _, _ => True
  | .mkdirs p, _ => ∀ a : PurePath, a.Above p → InZone h context (h.real a)
  | .write p _, _ => Clean context.stepId → p.parent = PurePath.ofString context.logDir
  | .command argv _ _, m => ToolArgv h context argsJson m.disk toolName argv
  | _, _ => False

/-- The language is found not to be a string when the transcript directory has been
    created. -/
def LanguageTooLate (toolName : String) (d : Disk) : Prop :=
  toolName = "transcribe_audio" ∧ ∃ s p s' p' e, requiredStr argsJson "audio_file" = .ok s ∧
    allowlisted h s [context.sharedRoot, context.workDir] = .ok p ∧ (d.entry p.parts).isSome ∧
    requiredStr argsJson "transcript_dir" = .ok s' ∧
    allowlisted h s' [context.workDir, context.outputDir] = .ok p' ∧
    languageArg argsJson = .error e ∧ d.entry p'.parts = none ∧ d.Creatable p'.parts

variable {h context argsJson} {cmd : CommandSem} {toolName : String} {m : Machine}

theorem languageArg_ne_empty {language : String} (hl : languageArg argsJson = .ok language) :
    language ≠ "" := by
  unfold languageArg at hl
  split at hl <;> simp only [Except.ok.injEq, reduceCtorEq] at hl
  · subst hl
    decide
  · subst hl
    decide
  · subst hl
    split_ifs with he
    exacts [by decide, he]

/-- The argv of a tool has no empty part. -/
theorem ToolArgv.valid {d : Disk} {argv : List String}
    (ha : ToolArgv h context argsJson d toolName argv) : validateArgv argv = .ok () := by
  unfold validateArgv
  cases ha with
  | probe hs hp => simp [hp.ne_empty]
  | extract hs hp he hs' hp' => simp [hp.ne_empty, hp'.ne_empty]
  | transcribe hs hp he hs' hp' hl hne => simp [hp.ne_empty, hp'.ne_empty, hne]

/-- What exists stays, so an argv stays one. -/
theorem ToolArgv.keeps {d d' : Disk} {argv : List String}
    (ha : ToolArgv h context argsJson d toolName argv) (hd : d.Keeps d') :
    ToolArgv h context argsJson d' toolName argv := by
  have hsome : ∀ {q}, (d.entry q).isSome → (d'.entry q).isSome := by
    intro q hq
    obtain ⟨x, hx⟩ := Option.isSome_iff_exists.1 hq
    rw [hd q x hx]
    rfl
  cases ha with
  | probe hs hp he => exact .probe hs hp (hsome he)
  | extract hs hp he hs' hp' => exact .extract hs hp (hsome he) hs' hp'
  | transcribe hs hp he hs' hp' hl hne => exact .transcribe hs hp (hsome he) hs' hp' hl hne

/-- The way to a granted output, and to what lies below it, is in the zone. -/
theorem Granted.inZone {s : String} {p a : PurePath}
    (hp : Granted h s [context.workDir, context.outputDir] p) (ha : a.Above p) :
    InZone h context (h.real a) := by
  obtain ⟨root, hroot, hin⟩ := hp.inside
  rw [hp.real a ha]
  exact Or.inl ⟨root, hroot, List.prefix_or_prefix_of_prefix ha.2 hin⟩

theorem allowlisted_granted {path : String} {roots : List String} {p : PurePath}
    (hp : allowlisted h path roots = .ok p) : Granted h path roots p := by
  unfold allowlisted at hp
  split at hp
  · cases hp
  · rename_i q hq
    cases hp
    exact granted_of_ok hq

/-! ## The resolvers -/

/-- The precondition of a program that performs permitted operations, with `R` for its
    values and `E` for its exceptions. -/
abbrev ToolWp (h : Host) (cmd : CommandSem) (context : ToolExecutionContext) (argsJson : Json)
    (toolName : String) {α : Type} (R : α → Machine → Prop) (E : Exn → Machine → Prop)
    (p : FileProg α) (m : Machine) : Prop :=
  wp (Machine.Step h cmd) (Permitted h context argsJson toolName) (post R E) p m

/-- A `ToolExecutionError` leaves the machine as it was. -/
def Traceless (m : Machine) (e : Exn) (m' : Machine) : Prop :=
  e.kind = .toolExecutionError → m' = m

theorem Traceless.of_eq {m m' : Machine} (e : Exn) (hm : m' = m) : Traceless m e m' := fun _ => hm

theorem Traceless.of_ne {m m' : Machine} {e : Exn} (he : e.kind ≠ .toolExecutionError) :
    Traceless m e m' := fun hk => absurd hk he

theorem SysError.exn_kind (e : SysError) : e.exn.kind ≠ .toolExecutionError := by
  unfold SysError.exn
  split_ifs <;> intro hk <;> cases hk

theorem exist_wp (p : PurePath) : ToolWp h cmd context argsJson toolName
    (fun (b : Bool) m' => m' = m ∧ (b → (m.disk.entry (h.real p)).isSome)) (fun _ m' => m' = m)
    (FileProg.exist p) m := by
  refine ⟨trivial, fun r m' hs => ?_⟩
  obtain ⟨⟨hd, hr⟩, hc⟩ := hs
  have hm : m' = m := Machine.ext hd (hc.trans (List.append_nil _))
  cases r with
  | error e => exact hm
  | ok b => exact ⟨hm, fun hb => (hr b rfl).symm.trans hb⟩

theorem mkdirs_wp {p : PurePath} (hp : ∀ a : PurePath, a.Above p → InZone h context (h.real a)) :
    ToolWp h cmd context argsJson toolName
      (fun _ m' => MkdirsStep h p m.disk (.ok ()) m'.disk ∧ m'.calls = m.calls)
      (fun e _ => e.kind ≠ .toolExecutionError) (FileProg.mkdirs p) m := by
  refine ⟨hp, fun r m' hs => ?_⟩
  obtain ⟨hd, hc⟩ := hs
  cases r with
  | error e => exact e.exn_kind
  | ok u => exact ⟨hd, hc.trans (List.append_nil _)⟩

theorem resolveExisting_wp (path : String) (roots : List String) :
    ToolWp h cmd context argsJson toolName
      (fun p m' => m' = m ∧ allowlisted h path roots = .ok p ∧ (m.disk.entry p.parts).isSome)
      (fun _ m' => m' = m) (resolveExisting h path roots) m := by
  refine wp.seq wp.liftExcept ?_ fun e m' he => he.1
  rintro p m' ⟨rfl, hp⟩
  refine wp.seq (exist_wp p) ?_ fun e n he => he
  rintro b n ⟨rfl, hb⟩
  cases b with
  | false => exact rfl
  | true =>
    have hsome := hb rfl
    rw [(allowlisted_granted hp).real_self] at hsome
    exact ⟨rfl, hp, hsome⟩

/-- A granted output directory that does not exist and can be created. -/
def ToCreate (d : Disk) (p : PurePath) : Prop := d.entry p.parts = none ∧ d.Creatable p.parts

theorem resolveOutput_wp (path : String) : ToolWp h cmd context argsJson toolName
    (fun p m' => allowlisted h path [context.workDir, context.outputDir] = .ok p ∧
      MkdirsStep h p.parent m.disk (.ok ()) m'.disk ∧ m'.calls = m.calls)
    (Traceless m) (resolveOutput h path context) m := by
  refine wp.seq wp.liftExcept ?_ fun e m' he => .of_eq e he.1
  rintro p m' ⟨rfl, hp⟩
  refine wp.seq (mkdirs_wp fun a ha => ?_) ?_ fun e n he => .of_ne he
  · exact (allowlisted_granted hp).inZone ⟨ha.1, ha.2.trans (List.dropLast_prefix _)⟩
  · rintro u n hs
    exact ⟨hp, hs⟩

/-- Once the transcript directory is there, either it had to be created or nothing
    has changed. -/
theorem resolveOutputDir_wp (path : String) : ToolWp h cmd context argsJson toolName
    (fun p m' => allowlisted h path [context.workDir, context.outputDir] = .ok p ∧
      m.disk.Keeps m'.disk ∧ m'.calls = m.calls ∧ (m' = m ∨ ToCreate m.disk p))
    (Traceless m) (resolveOutputDir h path context) m := by
  refine wp.seq (resolveOutput_wp path) ?_ fun e m' he => he
  rintro p m' ⟨hp, hparent, hcalls⟩
  have hgr := allowlisted_granted hp
  refine wp.seq (mkdirs_wp fun a ha => hgr.inZone ha) ?_ fun e n he => .of_ne he
  rintro u n ⟨hdir, hcalls'⟩
  refine ⟨hp, hparent.keeps.trans hdir.keeps, hcalls'.trans hcalls, ?_⟩
  by_cases hex : m.disk.entry p.parts = some .dir
  · -- nothing is created for what exists
    have h1 : m'.disk = m.disk :=
      hparent.unchanged hgr.toCanonical.parent (List.dropLast_prefix _) hex
    have h2 : n.disk = m'.disk :=
      hdir.unchanged hgr.toCanonical (List.prefix_refl _) (h1 ▸ hex)
    exact Or.inl (Machine.ext (h2.trans h1) (hcalls'.trans hcalls))
  · -- what was in the way before the first call still is before the second
    have hcreate : m.disk.Creatable p.parts := by
      intro q hq
      rcases hdir.creatable hgr.toCanonical q hq with he | he
      · rcases hparent.created q with hc | ⟨hc, -⟩
        exacts [Or.inl (hc ▸ he), Or.inl hc]
      · rcases hparent.created q with hc | ⟨hc, -⟩
        exacts [Or.inr (hc ▸ he), Or.inl hc]
    have hself := hcreate p.parts ((List.mem_inits _ _).2 (List.prefix_refl _))
    exact Or.inr ⟨hself.resolve_right hex, hcreate⟩

/-! ## The builders -/

/-- A builder returns the argv of its tool; if it raises `ToolExecutionError`, nothing
    has changed unless the language was found to be bad too late. -/
abbrev Builds (h : Host) (cmd : CommandSem) (context : ToolExecutionContext) (argsJson : Json)
    (toolName : String) (m : Machine) (p : FileProg (List String)) : Prop :=
  ToolWp h cmd context argsJson toolName
    (fun argv m' => ToolArgv h context argsJson m'.disk toolName argv ∧ m'.calls = m.calls)
    (fun e m' => ¬ LanguageTooLate h context argsJson toolName m.disk → Traceless m e m') p m

theorem buildProbeMediaArgv_wp :
    Builds h cmd context argsJson "probe_media" m (buildProbeMediaArgv h argsJson context) := by
  refine wp.seq wp.liftExcept ?_ fun e n he _ => .of_eq e he.1
  rintro s n ⟨rfl, hs⟩
  refine wp.seq (resolveExisting_wp s _) ?_ fun e n he _ => .of_eq e he
  rintro p n ⟨rfl, hp, he⟩
  exact ⟨.probe hs (allowlisted_granted hp) he, rfl⟩

theorem buildExtractAudioArgv_wp :
    Builds h cmd context argsJson "extract_audio" m (buildExtractAudioArgv h argsJson context) := by
  refine wp.seq wp.liftExcept ?_ fun e n he _ => .of_eq e he.1
  rintro s n ⟨rfl, hs⟩
  refine wp.seq (resolveExisting_wp s _) ?_ fun e n he _ => .of_eq e he
  rintro p n ⟨rfl, hp, he⟩
  refine wp.seq wp.liftExcept ?_ fun e n he _ => .of_eq e he.1
  rintro s' n ⟨rfl, hs'⟩
  refine wp.seq (resolveOutput_wp s') ?_ fun e n he _ => he
  rintro p' n ⟨hp', hdir, hcalls⟩
  have hargv := ToolArgv.extract hs (allowlisted_granted hp) he hs' (allowlisted_granted hp')
  exact ⟨hargv.keeps hdir.keeps, hcalls⟩

theorem buildTranscribeAudioArgv_wp :
    Builds h cmd context argsJson "transcribe_audio" m
      (buildTranscribeAudioArgv h argsJson context) := by
  refine wp.seq wp.liftExcept ?_ fun e n he _ => .of_eq e he.1
  rintro s n ⟨rfl, hs⟩
  refine wp.seq (resolveExisting_wp s _) ?_ fun e n he _ => .of_eq e he
  rintro p n ⟨rfl, hp, he⟩
  refine wp.seq wp.liftExcept ?_ fun e n he _ => .of_eq e he.1
  rintro s' n ⟨rfl, hs'⟩
  refine wp.seq (resolveOutputDir_wp s') ?_ fun e n he _ => he
  rintro p' m' ⟨hp', hkeeps, hcalls, hm⟩
  refine wp.seq wp.liftExcept ?_ ?_
  · rintro language m' ⟨rfl, hl⟩
    have hargv := ToolArgv.transcribe hs (allowlisted_granted hp) he hs' (allowlisted_granted hp')
      hl (languageArg_ne_empty hl)
    exact ⟨hargv.keeps hkeeps, hcalls⟩
  · rintro e m' ⟨rfl, hl⟩ hlate
    rcases hm with rfl | hcreate
    · exact .of_eq e rfl
    · exact absurd ⟨rfl, s, p, s', p', e, hs, hp, he, hs', hp', hl, hcreate⟩ hlate

/-! ## The call -/

theorem command_wp {argv : List String} {timeout : ℤ}
    (ha : ToolArgv h context argsJson m.disk toolName argv) :
    ToolWp h cmd context argsJson toolName (fun _ _ => True)
      (fun e _ => e.kind ≠ .toolExecutionError) (FileProg.command argv none timeout) m := by
  refine ⟨ha, fun r n hs => ?_⟩
  cases r with
  | error e => exact e.exn_kind
  | ok completed => trivial

theorem writeToolLogs_wp {errors : List String} {entries : List (PurePath × String)}
    (hen : ∀ en ∈ entries, Clean context.stepId →
      en.1.parent = PurePath.ofString context.logDir) :
    ToolWp h cmd context argsJson toolName (fun _ _ => True)
      (fun e _ => e.kind ≠ .toolExecutionError) (writeToolLogs errors entries) m := by
  induction entries generalizing errors m with
  | nil => trivial
  | cons en entries ih =>
    obtain ⟨path, content⟩ := en
    have hrest := fun en' hen' => hen en' (List.mem_cons_of_mem (path, content) hen')
    refine ⟨hen _ List.mem_cons_self, fun r n hs => ?_⟩
    cases r with
    | ok u => exact ih hrest
    | error e =>
      dsimp only
      split_ifs
      exacts [ih hrest, e.exn_kind]

/-- A log lies directly in `log_dir`. -/
theorem log_parent (hid : Clean context.stepId) (ht : '/' ∉ toolName.toList) {suffix : String}
    (hs : '/' ∉ suffix.toList) :
    ((PurePath.ofString context.logDir).join (context.stepId ++ "." ++ toolName ++ suffix)).parent =
      PurePath.ofString context.logDir := by
  have hlist : (context.stepId ++ "." ++ toolName ++ suffix).toList =
      context.stepId.toList ++ '.' :: (toolName.toList ++ suffix.toList) := by
    simp
  have hne : context.stepId.toList ≠ [] := by
    intro he
    exact hid.ne_empty (String.toList_eq_nil_iff.1 he)
  have hseg : Segment (context.stepId ++ "." ++ toolName ++ suffix) := by
    refine ⟨fun he => ?_, fun he => ?_, ?_⟩
    · rw [he] at hlist
      simp at hlist
    · rw [he] at hlist
      cases hc : context.stepId.toList with
      | nil => exact hne hc
      | cons c cs =>
        rw [hc] at hlist
        simp at hlist
    · rw [hlist]
      simp [hid.no_slash, ht, hs]
  obtain ⟨habs, hparts⟩ := PurePath.join_segment (PurePath.ofString context.logDir) hseg
  refine PurePath.ext habs ?_
  show ((PurePath.ofString context.logDir).join _).parts.dropLast = _
  rw [hparts, List.dropLast_concat]

/-- What follows the builder: the argv is valid, and no `ToolExecutionError` is raised. -/
theorem execute_spec {spec : CommandToolSpec} (timeoutSeconds : ℤ)
    (ht : '/' ∉ toolName.toList) {tools : List (String × CommandToolSpec)}
    (hspec : tools.lookup toolName = some spec)
    (hb : Builds h cmd context argsJson toolName m (spec.buildArgv argsJson context)) :
    ToolWp h cmd context argsJson toolName (fun _ _ => True)
      (fun e m' => ¬ LanguageTooLate h context argsJson toolName m.disk → Traceless m e m')
      (execute tools timeoutSeconds toolName argsJson context) m := by
  unfold execute
  rw [hspec]
  refine wp.seq hb ?_ fun e n he => he
  rintro argv n ⟨hargv, -⟩
  refine wp.seq wp.liftExcept ?_ fun e n he => ?_
  · rintro ⟨⟩ n' ⟨rfl, -⟩
    refine wp.seq (mkdirs_wp fun a ha => Or.inr ⟨a, ha, rfl⟩) ?_ fun e n he _ => .of_ne he
    rintro u n' ⟨hdir, -⟩
    refine wp.seq (command_wp (hargv.keeps hdir.keeps)) ?_ fun e n he _ => .of_ne he
    rintro completed n'' -
    refine wp.seq (writeToolLogs_wp ?_) (fun _ _ _ => trivial) fun e n he _ => .of_ne he
    intro en hen hid
    simp only [List.mem_cons, List.not_mem_nil, or_false] at hen
    rcases hen with rfl | rfl
    · exact log_parent hid ht (by decide)
    · exact log_parent hid ht (by decide)
  · rw [hargv.valid] at he
    cases he.2

/-- **A call of a default tool**: its operations are permitted, and if it raises
    `ToolExecutionError`, nothing has changed unless the language was bad too late. -/
theorem execute_wp (timeoutSeconds : ℤ) :
    ToolWp h cmd context argsJson toolName (fun _ _ => True)
      (fun e m' => ¬ LanguageTooLate h context argsJson toolName m.disk → Traceless m e m')
      (execute (buildDefaultCommandTools h) timeoutSeconds toolName argsJson context) m := by
  by_cases h1 : toolName = "probe_media"
  · subst h1
    exact execute_spec timeoutSeconds (by decide) rfl buildProbeMediaArgv_wp
  by_cases h2 : toolName = "extract_audio"
  · subst h2
    exact execute_spec timeoutSeconds (by decide) rfl buildExtractAudioArgv_wp
  by_cases h3 : toolName = "transcribe_audio"
  · subst h3
    exact execute_spec timeoutSeconds (by decide) rfl buildTranscribeAudioArgv_wp
  have hnone : (buildDefaultCommandTools h).lookup toolName = none := by
    rw [buildDefaultCommandTools, List.lookup_eq_none_iff]
    simp [h1, h2, h3]
  unfold execute
  rw [hnone]
  exact fun _ => .of_eq _ rfl

/-! ## Runs -/

/-- The runs of a call of a default tool. -/
abbrev CallReaches (h : Host) (cmd : CommandSem) (timeoutSeconds : ℤ) (toolName : String)
    (argsJson : Json) (context : ToolExecutionContext) (m : Machine) :
    List (Effects.Call FileOp FileOp.Ans Machine) → FileProg ToolExecutionResult → Machine → Prop :=
  Reaches (Machine.Step h cmd)
    (execute (buildDefaultCommandTools h) timeoutSeconds toolName argsJson context) m

theorem reaches_op {α : Type} {o : FileOp} {k : o.Ans → FileProg α} {r : o.Ans} {m' : Machine}
    (hs : Machine.Step h cmd o m r m') :
    ∃ cs, Reaches (Machine.Step h cmd) (.op o k) m cs (k r) m' :=
  ⟨_, Reaches.one r hs⟩

variable (cmd) in
theorem reaches_exist {p : PurePath} (hp : Canonical h p) (he : (m.disk.entry p.parts).isSome) :
    ∃ cs, Reaches (Machine.Step h cmd) (FileProg.exist p) m cs (.ret true) m := by
  have hs : Machine.Step h cmd (.exist p) m (.ok true) m := by
    refine ⟨⟨rfl, fun b hb => ?_⟩, (List.append_nil _).symm⟩
    cases hb
    rw [hp.real_self, he]
  exact reaches_op (k := FileProg.raise) hs

variable (cmd) in
theorem reaches_mkdirs {p : PurePath} (hp : Canonical h p) (hc : m.disk.Creatable p.parts) :
    ∃ cs, Reaches (Machine.Step h cmd) (FileProg.mkdirs p) m cs (.ret ())
      ⟨m.disk.addDirs p.parts hc, m.calls⟩ := by
  have hs : Machine.Step h cmd (.mkdirs p) m (.ok ()) ⟨m.disk.addDirs p.parts hc, m.calls⟩ :=
    ⟨addDirs_step hp hc, (List.append_nil _).symm⟩
  exact reaches_op (k := FileProg.raise) hs

variable (cmd) in
theorem reaches_resolveExisting {path : String} {roots : List String} {p : PurePath}
    (hp : allowlisted h path roots = .ok p) (he : (m.disk.entry p.parts).isSome) :
    ∃ cs, Reaches (Machine.Step h cmd) (resolveExisting h path roots) m cs (.ret p) m := by
  obtain ⟨cs, hcs⟩ := reaches_exist cmd (allowlisted_granted hp).toCanonical he
  refine ⟨[] ++ cs, ?_⟩
  unfold resolveExisting
  rw [hp]
  exact hcs.seq .start

variable (cmd) in
/-- A granted directory that is to be created can be. -/
theorem reaches_resolveOutputDir {path : String} {p : PurePath}
    (hp : allowlisted h path [context.workDir, context.outputDir] = .ok p)
    (hc : ToCreate m.disk p) : ∃ cs m', Reaches (Machine.Step h cmd)
      (resolveOutputDir h path context) m cs (.ret p) m' ∧ m'.disk.entry p.parts = some .dir := by
  have hcan := (allowlisted_granted hp).toCanonical
  have hparent := hc.2.above (List.dropLast_prefix p.parts)
  obtain ⟨cs, hcs⟩ := reaches_mkdirs cmd (m := m) hcan.parent hparent
  have hcreate := hc.2.addDirs hparent
  obtain ⟨cs', hcs'⟩ := reaches_mkdirs cmd
    (m := ⟨m.disk.addDirs p.parent.parts hparent, m.calls⟩) hcan hcreate
  refine ⟨[] ++ cs' ++ ([] ++ cs), ⟨(m.disk.addDirs p.parent.parts hparent).addDirs p.parts hcreate,
    m.calls⟩, ?_, if_pos (List.prefix_refl _)⟩
  have hout : Reaches (Machine.Step h cmd) (resolveOutput h path context) m ([] ++ cs) (.ret p)
      ⟨m.disk.addDirs p.parent.parts hparent, m.calls⟩ := by
    unfold resolveOutput
    rw [hp]
    exact hcs.seq .start
  exact hout.seq (hcs'.seq .start)

/-- A disk with an audio file in the work directory. -/
def sampleDisk : Disk :=
  (Disk.empty.addDirs ["media", "work"] (by decide)).addFile ["media", "work"] "a.wav" "audio"
    (by decide) (by decide)

def sampleContext : ToolExecutionContext where
  jobId := "job_a"
  stepId := "step_a"
  nodeId := "mac"
  sharedRoot := "/media"
  workDir := "/media/work"
  outputDir := "/media/output"
  logDir := "/media/logs"

/-- A runner whose commands succeed and do nothing. -/
def sampleRunner : CommandSem := fun _ _ d r d' => r = .ok (.exited 0 "" "") ∧ d' = d

/-! ## Confinement -/

/-- The words of the argvs that are not derived from the arguments. -/
def fixedWords (toolName : String) : List String :=
  if toolName = "probe_media" then
    ["ffprobe", "-v", "error", "-print_format", "json", "-show_format", "-show_streams"]
  else if toolName = "extract_audio" then
    ["ffmpeg", "-y", "-i", "-vn", "-ac", "1", "-ar", "16000"]
  else ["mlx-whisper", "--language", "--output-dir"]

/-- A part of an argv is a fixed word, the language or an absolute path; no argument
    can be read as an option. -/
theorem ToolArgv.part {d : Disk} {argv : List String} {part : String}
    (ha : ToolArgv h context argsJson d toolName argv) (hpart : part ∈ argv) : part ≠ "" ∧
      (part ∈ fixedWords toolName ∨ languageArg argsJson = .ok part ∨
        part.toList.head? = some '/') := by
  cases ha with
  | probe hs hp =>
    simp only [List.mem_cons, List.not_mem_nil, or_false] at hpart
    rcases hpart with rfl | rfl | rfl | rfl | rfl | rfl | rfl | rfl
    case inr.inr.inr.inr.inr.inr.inr => exact ⟨hp.ne_empty, Or.inr (Or.inr hp.head)⟩
    all_goals exact ⟨by decide, Or.inl (by decide)⟩
  | extract hs hp he hs' hp' =>
    simp only [List.mem_cons, List.not_mem_nil, or_false] at hpart
    rcases hpart with rfl | rfl | rfl | rfl | rfl | rfl | rfl | rfl | rfl | rfl
    case inr.inr.inr.inl => exact ⟨hp.ne_empty, Or.inr (Or.inr hp.head)⟩
    case inr.inr.inr.inr.inr.inr.inr.inr.inr => exact ⟨hp'.ne_empty, Or.inr (Or.inr hp'.head)⟩
    all_goals exact ⟨by decide, Or.inl (by decide)⟩
  | transcribe hs hp he hs' hp' hl hne =>
    simp only [List.mem_cons, List.not_mem_nil, or_false] at hpart
    rcases hpart with rfl | rfl | rfl | rfl | rfl | rfl
    case inr.inl => exact ⟨hp.ne_empty, Or.inr (Or.inr hp.head)⟩
    case inr.inr.inr.inl => exact ⟨hne, Or.inr (Or.inl hl)⟩
    case inr.inr.inr.inr.inr => exact ⟨hp'.ne_empty, Or.inr (Or.inr hp'.head)⟩
    all_goals exact ⟨by decide, Or.inl (by decide)⟩

/-- Directories come from `mkdir` only. -/
theorem FileOp.Step.creates {o : FileOp} {d d' : Disk} {r : o.Ans} (hs : o.Step h cmd d r d')
    (hc : o.calls = []) {q : ResolvedPath} (hq : d.entry q = none)
    (hq' : d'.entry q = some .dir) : ∃ p a, o = .mkdirs p ∧ a.Above p ∧ h.real a = q := by
  have hne : d'.entry q ≠ d.entry q := by
    rw [hq, hq']
    exact Option.some_ne_none _
  cases o with
  | exist | isFile | isDir | size | iterdir | readText => exact absurd (hs.1 ▸ rfl) hne
  | mkdirs p =>
    rcases hs.created q with he | ⟨-, -, a, ha, hreal⟩
    · exact absurd he hne
    · exact ⟨p, a, rfl, ha, hreal⟩
  | write p data =>
    by_cases he : q = h.real p
    · subst he
      rcases hs.here with hh | ⟨-, t, hh⟩
      · exact absurd hh hne
      · rw [hq'] at hh
        cases hh
    · exact absurd (hs.other q he) hne
  | command => cases hc

/-- **Tool calls are confined.**  In every run of a call, the runner is given one of
    the three argvs, its files existing; the executor's own files go directly into
    `log_dir`; and the directories it creates are in the zone. -/
theorem tool_calls_confined {timeoutSeconds : ℤ} (hid : Clean context.stepId)
    {cs : List (Effects.Call FileOp FileOp.Ans Machine)} {q : FileProg ToolExecutionResult} {m' : Machine}
    (hr : CallReaches h cmd timeoutSeconds toolName argsJson context m cs q m') :
    ∀ c ∈ cs,
      (∀ argv output timeout, c.op = .command argv output timeout →
        ToolArgv h context argsJson c.pre.disk toolName argv ∧ ∀ part ∈ argv, part ≠ "" ∧
          (part ∈ fixedWords toolName ∨ languageArg argsJson = .ok part ∨
            part.toList.head? = some '/')) ∧
      (∀ p data, c.op = .write p data → p.parent = PurePath.ofString context.logDir) ∧
      (c.op.calls = [] → ∀ q, c.pre.disk.entry q = none → c.post.disk.entry q = some .dir →
        InZone h context q) := by
  intro c hc
  have hperm := ((execute_wp timeoutSeconds).reaches hr).2 c hc
  have hmove := (hr.moves c hc).1
  refine ⟨fun argv output timeout ho => ?_, fun p data ho => ?_, fun hcalls q hq hq' => ?_⟩
  · rw [ho] at hperm
    exact ⟨hperm, fun part hpart => ToolArgv.part hperm hpart⟩
  · rw [ho] at hperm
    exact hperm hid
  · obtain ⟨p, a, ho, ha, rfl⟩ := hmove.creates hcalls hq hq'
    rw [ho] at hperm
    exact hperm a ha

def sampleProbeArgv : List String :=
  ["ffprobe", "-v", "error", "-print_format", "json", "-show_format", "-show_streams",
    "/media/work/a.wav"]

/-- The input file is given by a path that is not canonical. -/
def sampleProbeArgs : Json :=
  .obj [("input_file", .str "/media/work/../work/a.wav")]

/-- A call that reaches the runner. -/
theorem sample_probe_run : ∃ cs q m', CallReaches sampleTree.host sampleRunner 30 "probe_media"
    sampleProbeArgs sampleContext ⟨sampleDisk, []⟩ cs q m' ∧
    ∃ c ∈ cs, c.op = .command sampleProbeArgv none 30 := by
  have hin : allowlisted sampleTree.host "/media/work/../work/a.wav" ["/media"] =
      .ok (.ofString "/media/work/a.wav") := rfl
  have hlog : allowlisted sampleTree.host "/media/logs" ["/media"] =
      .ok (.ofString "/media/logs") := rfl
  obtain ⟨cs, hcs⟩ := reaches_resolveExisting sampleRunner (m := ⟨sampleDisk, []⟩) hin
    (by decide)
  obtain ⟨cs', hcs'⟩ := reaches_mkdirs sampleRunner (m := ⟨sampleDisk, []⟩)
    (allowlisted_granted hlog).toCanonical (by decide)
  have hbuild : Reaches (Machine.Step sampleTree.host sampleRunner)
      (buildProbeMediaArgv sampleTree.host sampleProbeArgs sampleContext) ⟨sampleDisk, []⟩
      ([] ++ cs) (.ret sampleProbeArgv) ⟨sampleDisk, []⟩ := hcs.seq .start
  have hs : Machine.Step sampleTree.host sampleRunner (.command sampleProbeArgv none 30)
      ⟨sampleDisk.addDirs ["media", "logs"] (by decide), []⟩ (.ok (.exited 0 "" ""))
      ⟨sampleDisk.addDirs ["media", "logs"] (by decide), [sampleProbeArgv]⟩ :=
    ⟨⟨rfl, rfl⟩, rfl⟩
  exact ⟨_, _, _, hbuild.seq (hcs'.seq (.step .start hs)), _, List.mem_cons_self, rfl⟩

/-- The runner is given the canonical path of the file. -/
theorem tool_calls_confined_sample : ∃ cs q m',
    CallReaches sampleTree.host sampleRunner 30 "probe_media" sampleProbeArgs sampleContext
      ⟨sampleDisk, []⟩ cs q m' ∧
    ∃ c ∈ cs, c.op = .command sampleProbeArgv none 30 ∧
      ToolArgv sampleTree.host sampleContext sampleProbeArgs c.pre.disk "probe_media"
        sampleProbeArgv ∧
      ∀ part ∈ sampleProbeArgv, part ≠ "" ∧
        (part ∈ fixedWords "probe_media" ∨ languageArg sampleProbeArgs = .ok part ∨
          part.toList.head? = some '/') := by
  obtain ⟨cs, q, m', hr, c, hc, ho⟩ := sample_probe_run
  exact ⟨cs, q, m', hr, c, hc, ho, (tool_calls_confined (by decide) hr c hc).1 _ _ _ ho⟩

/-! ## What a rejected call leaves behind -/

theorem languageArg_kind {s key : String} {e : Exn} (hs : requiredStr argsJson key = .ok s)
    (hl : languageArg argsJson = .error e) : e.kind = .toolExecutionError := by
  cases argsJson with
  | obj kvs =>
    unfold languageArg at hl
    split at hl
    case h_1 hget => cases hget
    all_goals cases hl
    rfl
  | _ => cases hs

variable (cmd) in
/-- A language found to be bad too late leaves the transcript directory behind. -/
theorem languageTooLate_run (timeoutSeconds : ℤ)
    (hlate : LanguageTooLate h context argsJson toolName m.disk) :
    ∃ cs e m', CallReaches h cmd timeoutSeconds toolName argsJson context m cs (.throw e) m' ∧
      e.kind = .toolExecutionError ∧ m'.disk ≠ m.disk := by
  obtain ⟨rfl, s, p, s', p', e, hs, hp, he, hs', hp', hl, hcreate⟩ := hlate
  obtain ⟨cs, hcs⟩ := reaches_resolveExisting cmd hp he
  obtain ⟨cs', m', hcs', hdir⟩ := reaches_resolveOutputDir cmd hp' hcreate
  refine ⟨cs' ++ cs, e, m', ?_, languageArg_kind hs hl, fun hd => ?_⟩
  · have hbuild : Reaches (Machine.Step h cmd) (buildTranscribeAudioArgv h argsJson context) m
        (cs' ++ cs) (.throw e) m' := by
      unfold buildTranscribeAudioArgv
      rw [hs, hs', hl]
      exact hcs.seq (hcs'.bind)
    exact hbuild.bind
  · rw [hd, hcreate.1] at hdir
    cases hdir

/-- **A rejected tool call leaves no trace**, the runner is not called and the disk is
    as before, exactly if the language was not found to be bad too late. -/
theorem rejected_call_traceless (h : Host) (cmd : CommandSem) (timeoutSeconds : ℤ)
    (toolName : String) (argsJson : Json) (context : ToolExecutionContext) (m : Machine) :
    (∀ cs e m', CallReaches h cmd timeoutSeconds toolName argsJson context m cs (.throw e) m' →
      e.kind = .toolExecutionError → m'.calls = m.calls ∧ m'.disk = m.disk) ↔
      ¬ LanguageTooLate h context argsJson toolName m.disk := by
  constructor
  · intro hall hlate
    obtain ⟨cs, e, m', hr, hk, hne⟩ := languageTooLate_run cmd timeoutSeconds hlate
    exact hne (hall cs e m' hr hk).2
  · intro hlate cs e m' hr hk
    obtain rfl : m' = m := ((execute_wp timeoutSeconds).reaches hr).1 hlate hk
    exact ⟨rfl, rfl⟩

/-- A transcription whose language is the number 5. -/
def sampleArgs : Json := .obj [("audio_file", .str "/media/work/a.wav"),
  ("transcript_dir", .str "/media/work/out"), ("language", .int 5)]

/-- The call is rejected and has created the transcript directory. -/
theorem rejected_call_traceless_counterexample :
    ∃ cs e m', CallReaches sampleTree.host (fun _ _ _ _ _ => False) 30 "transcribe_audio" sampleArgs
      sampleContext ⟨sampleDisk, []⟩ cs (.throw e) m' ∧ e.kind = .toolExecutionError ∧
      m'.disk ≠ sampleDisk := by
  refine languageTooLate_run _ 30 ⟨rfl, "/media/work/a.wav", .ofString "/media/work/a.wav",
    "/media/work/out", .ofString "/media/work/out", toolExecutionError "language must be a string",
    rfl, ?_, by decide, rfl, ?_, rfl, by decide, by decide⟩
  · rfl
  · rfl

end MediaOrchard
