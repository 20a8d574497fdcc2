/-
  The registry of the nodes over whole runs.

  * `Enrolls`, `Reports`, `Charges`: what a registration, a heartbeat and a pass make of
    the row of a node;
  * `NodeStep t k`: what a transition does to the row of node `k`;
  * `App.Run.nodeStep`: every transition of a run is such a step;
  * `Accounted tr n`: every column of the node was said by a request about it;
  * `registry_sound`.
-/
import MediaOrchard.Proof.Preference
import MediaOrchard.Proof.Records

namespace MediaOrchard

open Keyed Interleave

/-! ## What requests make of a row -/

/-- The row after a registration: the columns that say what the node is may have taken
    what the request says. -/
structure Enrolls (body : NodeRegisterRequest) (host : Option String) (root : ResolvedPath)
    (n n' : Node) : Prop where
  rest : n' = { n with
    name := n'.name
    host := n'.host
    status := n'.status
    sharedRoot := n'.sharedRoot
    maxFfmpegJobs := n'.maxFfmpegJobs
    maxWhisperJobs := n'.maxWhisperJobs
    updatedAt := n'.updatedAt }
  name : n'.name = n.name ∨ n'.name = body.name
  host : n'.host = n.host ∨ n'.host = host
  status : n'.status = n.status ∨ n'.status = .online
  sharedRoot : n'.sharedRoot = n.sharedRoot ∨ n'.sharedRoot = root.str
  maxFfmpegJobs : n'.maxFfmpegJobs = n.maxFfmpegJobs ∨ n'.maxFfmpegJobs = body.maxFfmpegJobs
  maxWhisperJobs : n'.maxWhisperJobs = n.maxWhisperJobs ∨ n'.maxWhisperJobs = body.maxWhisperJobs

/-- The row after a heartbeat of its node: the columns that say how the node is doing may
    have taken what the request says; a pass may have raised the counters. -/
structure Reports (body : NodeHeartbeatRequest) (now : Instant) (n n' : Node) : Prop where
  rest : n' = { n with
    cpuPercent := n'.cpuPercent
    memoryPercent := n'.memoryPercent
    freeDiskGb := n'.freeDiskGb
    activeJobs := n'.activeJobs
    activeFfmpegJobs := n'.activeFfmpegJobs
    activeWhisperJobs := n'.activeWhisperJobs
    thermalState := n'.thermalState
    onBattery := n'.onBattery
    lastHeartbeatAt := n'.lastHeartbeatAt
    updatedAt := n'.updatedAt }
  cpuPercent : n'.cpuPercent = n.cpuPercent ∨ n'.cpuPercent = body.cpuPercent
  memoryPercent : n'.memoryPercent = n.memoryPercent ∨ n'.memoryPercent = body.memoryPercent
  freeDiskGb : n'.freeDiskGb = n.freeDiskGb ∨ n'.freeDiskGb = body.freeDiskGb
  thermalState : n'.thermalState = n.thermalState ∨ n'.thermalState = body.thermalState
  onBattery : n'.onBattery = n.onBattery ∨ n'.onBattery = body.onBattery
  lastHeartbeatAt : n'.lastHeartbeatAt = n.lastHeartbeatAt ∨ n'.lastHeartbeatAt = some now
  activeJobs : min n.activeJobs body.activeJobs ≤ n'.activeJobs
  activeFfmpegJobs : min n.activeFfmpegJobs body.activeFfmpegJobs ≤ n'.activeFfmpegJobs
  activeWhisperJobs : min n.activeWhisperJobs body.activeWhisperJobs ≤ n'.activeWhisperJobs

/-- The row after a pass: the counters may be higher. -/
structure Charges (n n' : Node) : Prop where
  rest : n.SameButCounters n'
  activeJobs : n.activeJobs ≤ n'.activeJobs
  activeFfmpegJobs : n.activeFfmpegJobs ≤ n'.activeFfmpegJobs
  activeWhisperJobs : n.activeWhisperJobs ≤ n'.activeWhisperJobs

theorem Charges.refl (n : Node) : Charges n n := ⟨rfl, le_rfl, le_rfl, le_rfl⟩

theorem Charges.trans {a b c : Node} (h : Charges a b) (h' : Charges b c) : Charges a c :=
  ⟨h.rest.trans h'.rest, h.activeJobs.trans h'.activeJobs,
    h.activeFfmpegJobs.trans h'.activeFfmpegJobs, h.activeWhisperJobs.trans h'.activeWhisperJobs⟩

theorem charges_charge (step : Step) (n : Node) : Charges n (n.charge step) := by
  refine ⟨n.sameButCounters_charge step, ?_, ?_, ?_⟩
  · show n.activeJobs ≤ n.activeJobs + 1
    omega
  · show n.activeFfmpegJobs ≤ if isWhisperStep step then _ else _
    split_ifs <;> omega
  · show n.activeWhisperJobs ≤ if isWhisperStep step then _ else _
    split_ifs <;> omega

/-- **A pass charges the nodes.** -/
theorem scheduleLoop_charges {float : ℤ → Except PyError ℚ} {config : SchedulerConfig}
    {now : Instant} {steps out : List Step} {nodes nodes' : List Node} (hq : ∀ s ∈ steps, s.status = .queued)
    (h : scheduleLoop float config now steps nodes = .ok (out, nodes')) :
    ∃ g : Node → Node, nodes' = nodes.map g ∧ ∀ n : Node, Charges n (g n) := by
  induction steps generalizing nodes out with
  | nil => cases h; exact ⟨id, (List.map_id _).symm, fun n => .refl n⟩
  | cons step rest ih =>
    obtain ⟨d, step', mid, rest', ha, hl, rfl⟩ := scheduleLoop_cons (hq step (by simp)) h
    obtain ⟨g, rfl, hg⟩ := ih (fun s hs => hq s (by simp [hs])) hl
    obtain ⟨-, -, ⟨-, -, rfl⟩ | ⟨sel, -, -, rfl⟩⟩ := assignBestNode_ok ha
    · exact ⟨g, rfl, hg⟩
    · refine ⟨_, List.map_map, fun n => Charges.trans ?_ (hg (if n.id = sel.id then _ else n))⟩
      split_ifs
      exacts [charges_charge step n, .refl n]

/-- A column keeps the value of the row or takes that of the object. -/
theorem flushCol_or {α : Type} [DecidableEq α] (old new cur : α) :
    flushCol old new cur = cur ∨ flushCol old new cur = new := by
  unfold flushCol
  split_ifs
  exacts [Or.inl rfl, Or.inr rfl]

/-- The flush of a registration. -/
theorem enrolls_flush (body : NodeRegisterRequest) (host : Option String) (root : ResolvedPath)
    (now : Instant) (node cur : Node) :
    Enrolls body host root cur (Node.flush node (node.registered body host root now) cur) where
  rest := by simp [Node.flush, Node.registered, flushCol]
  name := flushCol_or ..
  host := flushCol_or ..
  status := flushCol_or ..
  sharedRoot := flushCol_or ..
  maxFfmpegJobs := flushCol_or ..
  maxWhisperJobs := flushCol_or ..

/-- A column after a heartbeat and its pass, which does not touch it. -/
theorem flushCol_twice {α : Type} [DecidableEq α] {old new new' cur : α} (h : new' = new) :
    flushCol new new' (flushCol old new cur) = cur ∨
      flushCol new new' (flushCol old new cur) = new := by
  rw [flushCol, if_pos h]
  exact flushCol_or ..

/-- A counter after a heartbeat and its pass. -/
theorem min_le_flushCol {old new new' cur : ℤ} (h : new ≤ new') :
    min cur new ≤ flushCol new new' (flushCol old new cur) := by
  rcases flushCol_or new new' (flushCol old new cur) with he | he
  · rw [he]
    rcases flushCol_or old new cur with he | he <;> rw [he]
    exacts [min_le_left .., min_le_right ..]
  · rw [he]
    exact (min_le_right ..).trans h

/-- The two flushes of a heartbeat. -/
theorem reports_flush (body : NodeHeartbeatRequest) (now updatedAt : Instant) (node cur : Node)
    {charged : Node} (h : Charges (node.heartbeat body now updatedAt) charged) :
    Reports body now cur (Node.flush (node.heartbeat body now updatedAt) charged
      (Node.flush node (node.heartbeat body now updatedAt) cur)) where
  rest := by
    rw [h.rest]
    simp [Node.flush, Node.heartbeat, flushCol]
  cpuPercent := flushCol_twice (by rw [h.rest])
  memoryPercent := flushCol_twice (by rw [h.rest])
  freeDiskGb := flushCol_twice (by rw [h.rest])
  thermalState := flushCol_twice (by rw [h.rest])
  onBattery := flushCol_twice (by rw [h.rest])
  lastHeartbeatAt := flushCol_twice (by rw [h.rest])
  activeJobs := min_le_flushCol h.activeJobs
  activeFfmpegJobs := min_le_flushCol h.activeFfmpegJobs
  activeWhisperJobs := min_le_flushCol h.activeWhisperJobs

/-! ## Transitions of a run -/

variable {app : App} {r : Request} {db₀ : Db} {tr : List (Trans app.controller)}
  {c : Conf Db HttpError Response Request} {t : Trans app.controller} {k : String}

/-- What a transition does to the row of node `k`. -/
inductive NodeStep (t : Trans app.controller) (k : String) : Prop
  | same (h : t.post.db.nodes.get? k = t.pre.db.nodes.get? k)
  | enroll {i r body root n n'} (hby : t.By i r) (hr : Registers app r body root)
      (hk : body.nodeId = k) (hn : t.pre.db.nodes.get? k = some n)
      (hn' : t.post.db.nodes.get? k = some n') (h : Enrolls body r.ambient.clientHost root n n')
  | insert {i r body root createdAt updatedAt now} (hby : t.By i r)
      (hr : Registers app r body root) (hk : body.nodeId = k) (hn : t.pre.db.nodes.get? k = none)
      (hn' : t.post.db.nodes.get? k = some ((Node.fresh body root createdAt updatedAt).registered
        body r.ambient.clientHost root now))
  | report {i r body n n'} (hby : t.By i r) (hc : r.call = .heartbeatNode k body)
      (hv : body.invalid = []) (hn : t.pre.db.nodes.get? k = some n)
      (hn' : t.post.db.nodes.get? k = some n') (h : Reports body (r.ambient.clock 0) n n')
  | charge {i r nodeId body n n'} (hby : t.By i r) (hc : r.call = .heartbeatNode nodeId body)
      (hne : nodeId ≠ k) (hn : t.pre.db.nodes.get? k = some n)
      (hn' : t.post.db.nodes.get? k = some n') (h : Charges n n')

/-- The rows of the nodes after a heartbeat of the node `loaded`. -/
theorem heartbeatCommit_node (app : App) (now : Instant) {loaded own : Node} (db : Db)
    (hid : own.id = loaded.id) (k : String) :
    (heartbeatCommit app now loaded own db).2.nodes.get? k = db.nodes.get? k ∨
      ∃ n n', db.nodes.get? k = some n ∧
        (heartbeatCommit app now loaded own db).2.nodes.get? k = some n' ∧
        ((k = loaded.id ∧ ∃ charged, Charges own charged ∧
            n' = Node.flush own charged (Node.flush loaded own n)) ∨
          (k ≠ loaded.id ∧ Charges n n')) := by
  unfold heartbeatCommit
  split
  · exact Or.inl rfl
  rename_i out nodes h
  rw [scheduleQueuedSteps_eq] at h
  obtain ⟨g, rfl, hg⟩ := scheduleLoop_charges (fun s hs => (mem_queuedSteps.1 hs).2) h
  dsimp only
  rw [Table.get?_update]
  cases hn : db.nodes.get? k with
  | none => exact Or.inl rfl
  | some n =>
    have hk : n.id = k := Table.key_of_get? hn
    refine Or.inr ⟨n, _, rfl, rfl, ?_⟩
    rw [flushNode_pass hid (fun n => (hg n).rest) (Table.mem_of_get? hn), hk]
    split_ifs with he
    exacts [Or.inl ⟨he, g own, hg own, rfl⟩, Or.inr ⟨he, hg n⟩]

/-- A write of a request, seen from the row of node `k`. -/
theorem Write.nodeStep {i : ℕ} (hby : t.By i r) (h : Write app r t.pre.db t.post.db) (k : String) :
    NodeStep t k := by
  generalize hd : t.post.db = db' at h
  cases h with
  | read | planned | job => exact .same (by rw [hd])
  | steps guard values =>
    refine .same ?_
    rw [hd]
    unfold updateSteps
    split_ifs <;> rfl
  | @registered body node root now hr hid =>
    cases hn : t.pre.db.nodes.get? k with
    | none => exact .same (by rw [hd]; simp [hn])
    | some n =>
      have hnk : n.id = k := Table.key_of_get? hn
      by_cases hk : node.id = k
      · refine .enroll hby hr (hid.symm.trans hk) hn ?_ (enrolls_flush body _ root now node n)
        rw [hd, Table.get?_update, hn, Option.map_some, if_pos (hnk.trans hk.symm)]
      · refine .same ?_
        rw [hd, Table.get?_update, hn, Option.map_some, if_neg fun he => hk (he.symm.trans hnk)]
  | @inserted body root createdAt updatedAt now nodes hr hins =>
    have hpost := Table.get?_insert (k := k) hins
    split_ifs at hpost with hk
    · exact .insert hby hr hk (hk ▸ (Table.insert?_eq_some hins).1) (by rw [hd]; exact hpost)
    · exact .same (by rw [hd]; exact hpost)
  | @heartbeat nodeId body node hr hv hid =>
    rcases heartbeatCommit_node app (r.ambient.clock 0) t.pre.db
      (show (node.heartbeat body (r.ambient.clock 0) (r.ambient.clock 1)).id = node.id from rfl) k
      with he | ⟨n, n', hn, hn', ⟨rfl, charged, hch, rfl⟩ | ⟨hne, hch⟩⟩
    · exact .same (by rw [hd]; exact he)
    · exact .report hby (hid ▸ hr) hv hn (by rw [hd]; exact hn') (reports_flush _ _ _ _ _ hch)
    · exact .charge hby hr (fun h => hne (h.symm.trans hid.symm)) hn (by rw [hd]; exact hn') hch

/-- **A transition of a run, seen from a node.** -/
theorem App.Run.nodeStep (h : app.Run db₀ tr c) (ht : t ∈ tr) (k : String) : NodeStep t k := by
  rcases h.write ht with he | ⟨i, r, hby, hw⟩ | ⟨stepId, -, he⟩
  · exact .same (by rw [he])
  · exact hw.nodeStep hby k
  · exact .same (by rw [he]; rfl)

/-- **Induction over a run, seen from one node.** -/
theorem App.Run.node_inv {P : List (Trans app.controller) → Option Node → Prop}
    (h : app.Run db₀ tr c) (h₀ : P [] (db₀.nodes.get? k))
    (hs : ∀ tr' t, t ∈ tr → NodeStep t k → P tr' (t.pre.db.nodes.get? k) →
      P (t :: tr') (t.post.db.nodes.get? k)) : P tr (c.db.nodes.get? k) := by
  induction h with
  | init => exact h₀
  | @step tr c h a ih =>
    refine hs _ _ List.mem_cons_self (App.Run.nodeStep (h.step a) List.mem_cons_self k) ?_
    exact ih fun tr' t ht => hs tr' t (List.mem_cons_of_mem _ ht)

/-! ## What the rows are accounted for by -/

/-- A registration of node `k` in the run says so. -/
def Said (tr : List (Trans app.controller)) (k : String)
    (φ : Request → NodeRegisterRequest → Prop) : Prop :=
  ∃ t ∈ tr, ∃ i r body root, t.By i r ∧ Registers app r body root ∧ body.nodeId = k ∧ φ r body

/-- A heartbeat of node `k` in the run says so. -/
def Heard (tr : List (Trans app.controller)) (k : String)
    (φ : Request → NodeHeartbeatRequest → Prop) : Prop :=
  ∃ t ∈ tr, ∃ i r body, t.By i r ∧ r.call = .heartbeatNode k body ∧ body.invalid = [] ∧ φ r body

/-- Every column of the row of node `k` is what a request about the node says, or its default;
    the counters may be higher. -/
structure Accounted (tr : List (Trans app.controller)) (k : String) (n : Node) : Prop where
  name : Said tr k fun _ body => n.name = body.name
  host : Said tr k fun r _ => n.host = r.ambient.clientHost
  maxFfmpegJobs : Said tr k fun _ body => n.maxFfmpegJobs = body.maxFfmpegJobs
  maxWhisperJobs : Said tr k fun _ body => n.maxWhisperJobs = body.maxWhisperJobs
  cpuPercent : n.cpuPercent = 0 ∨ Heard tr k fun _ body => n.cpuPercent = body.cpuPercent
  memoryPercent : n.memoryPercent = 0 ∨
    Heard tr k fun _ body => n.memoryPercent = body.memoryPercent
  freeDiskGb : n.freeDiskGb = 0 ∨ Heard tr k fun _ body => n.freeDiskGb = body.freeDiskGb
  thermalState : n.thermalState = "unknown" ∨
    Heard tr k fun _ body => n.thermalState = body.thermalState
  onBattery : n.onBattery = false ∨ Heard tr k fun _ body => n.onBattery = body.onBattery
  lastHeartbeatAt : n.lastHeartbeatAt = none ∨
    Heard tr k fun r _ => n.lastHeartbeatAt = some (r.ambient.clock 0)

theorem Said.mono {φ : Request → NodeRegisterRequest → Prop} (h : Said tr k φ) :
    Said (t :: tr) k φ := by
  obtain ⟨t', ht', h⟩ := h
  exact ⟨t', List.mem_cons_of_mem _ ht', h⟩

theorem Heard.mono {φ : Request → NodeHeartbeatRequest → Prop} (h : Heard tr k φ) :
    Heard (t :: tr) k φ := by
  obtain ⟨t', ht', h⟩ := h
  exact ⟨t', List.mem_cons_of_mem _ ht', h⟩

theorem Accounted.mono {n : Node} (h : Accounted tr k n) : Accounted (t :: tr) k n where
  name := h.name.mono
  host := h.host.mono
  maxFfmpegJobs := h.maxFfmpegJobs.mono
  maxWhisperJobs := h.maxWhisperJobs.mono
  cpuPercent := h.cpuPercent.imp_right .mono
  memoryPercent := h.memoryPercent.imp_right .mono
  freeDiskGb := h.freeDiskGb.imp_right .mono
  thermalState := h.thermalState.imp_right .mono
  onBattery := h.onBattery.imp_right .mono
  lastHeartbeatAt := h.lastHeartbeatAt.imp_right .mono

/-- A column that a registration may have written. -/
theorem Said.write {α : Type} {v v' : α} {val : Request → NodeRegisterRequest → α} {i : ℕ}
    {body : NodeRegisterRequest} {root : ResolvedPath}
    (h : Said tr k fun r body => v = val r body) (hby : t.By i r) (hr : Registers app r body root)
    (hk : body.nodeId = k) (hor : v' = v ∨ v' = val r body) :
    Said (t :: tr) k fun r body => v' = val r body := by
  rcases hor with rfl | rfl
  · exact h.mono
  · exact ⟨t, List.mem_cons_self, i, r, body, root, hby, hr, hk, rfl⟩

/-- A column that a heartbeat may have written. -/
theorem Heard.write {α : Type} {d v v' : α} {val : Request → NodeHeartbeatRequest → α} {i : ℕ}
    {body : NodeHeartbeatRequest} (h : v = d ∨ Heard tr k fun r body => v = val r body)
    (hby : t.By i r) (hc : r.call = .heartbeatNode k body) (hv : body.invalid = [])
    (hor : v' = v ∨ v' = val r body) : v' = d ∨ Heard (t :: tr) k fun r body => v' = val r body := by
  rcases hor with rfl | rfl
  · exact h.imp_right .mono
  · exact Or.inr ⟨t, List.mem_cons_self, i, r, body, hby, hc, hv, rfl⟩

theorem Accounted.enroll {i : ℕ} {body : NodeRegisterRequest} {root : ResolvedPath} {n n' : Node}
    (h : Accounted tr k n) (hby : t.By i r) (hr : Registers app r body root)
    (hk : body.nodeId = k) (he : Enrolls body r.ambient.clientHost root n n') :
    Accounted (t :: tr) k n' where
  name := h.name.write hby hr hk he.name
  host := h.host.write hby hr hk he.host
  maxFfmpegJobs := h.maxFfmpegJobs.write hby hr hk he.maxFfmpegJobs
  maxWhisperJobs := h.maxWhisperJobs.write hby hr hk he.maxWhisperJobs
  cpuPercent := by rw [he.rest]; exact h.mono.cpuPercent
  memoryPercent := by rw [he.rest]; exact h.mono.memoryPercent
  freeDiskGb := by rw [he.rest]; exact h.mono.freeDiskGb
  thermalState := by rw [he.rest]; exact h.mono.thermalState
  onBattery := by rw [he.rest]; exact h.mono.onBattery
  lastHeartbeatAt := by rw [he.rest]; exact h.mono.lastHeartbeatAt

theorem Accounted.insert {i : ℕ} {body : NodeRegisterRequest} {root : ResolvedPath}
    (hby : t.By i r) (hr : Registers app r body root) (hk : body.nodeId = k)
    (createdAt updatedAt now : Instant) : Accounted (t :: tr) k
      ((Node.fresh body root createdAt updatedAt).registered body r.ambient.clientHost root now) := by
  have hsaid : ∀ {φ : Request → NodeRegisterRequest → Prop}, φ r body → Said (t :: tr) k φ :=
    fun hφ => ⟨t, List.mem_cons_self, i, r, body, root, hby, hr, hk, hφ⟩
  exact ⟨hsaid rfl, hsaid rfl, hsaid rfl, hsaid rfl, Or.inl rfl, Or.inl rfl, Or.inl rfl,
    Or.inl rfl, Or.inl rfl, Or.inl rfl⟩

theorem Accounted.report {i : ℕ} {body : NodeHeartbeatRequest} {n n' : Node}
    (h : Accounted tr k n) (hby : t.By i r) (hc : r.call = .heartbeatNode k body)
    (hv : body.invalid = []) (hrep : Reports body (r.ambient.clock 0) n n') :
    Accounted (t :: tr) k n' where
  name := by rw [hrep.rest]; exact h.mono.name
  host := by rw [hrep.rest]; exact h.mono.host
  maxFfmpegJobs := by rw [hrep.rest]; exact h.mono.maxFfmpegJobs
  maxWhisperJobs := by rw [hrep.rest]; exact h.mono.maxWhisperJobs
  cpuPercent := Heard.write h.cpuPercent hby hc hv hrep.cpuPercent
  memoryPercent := Heard.write h.memoryPercent hby hc hv hrep.memoryPercent
  freeDiskGb := Heard.write h.freeDiskGb hby hc hv hrep.freeDiskGb
  thermalState := Heard.write h.thermalState hby hc hv hrep.thermalState
  onBattery := Heard.write h.onBattery hby hc hv hrep.onBattery
  lastHeartbeatAt := Heard.write h.lastHeartbeatAt hby hc hv hrep.lastHeartbeatAt

theorem Accounted.charge {n n' : Node} (h : Accounted tr k n) (hch : Charges n n') :
    Accounted (t :: tr) k n' := by
  rw [hch.rest]
  exact ⟨h.name.mono, h.host.mono, h.maxFfmpegJobs.mono, h.maxWhisperJobs.mono, h.mono.cpuPercent,
    h.mono.memoryPercent, h.mono.freeDiskGb, h.mono.thermalState, h.mono.onBattery,
    h.mono.lastHeartbeatAt⟩

/-! ## What the scheduler may rely on -/

/-- The node is online, on the Controller's root, and its numbers make sense. -/
structure Node.Sound (root : ResolvedPath) (n : Node) : Prop where
  online : n.status = .online
  sharedRoot : n.sharedRoot = root.str
  nonNeg : n.NonNeg
  disk : 0 ≤ n.freeDiskGb

/-- The fields of an accepted heartbeat are not negative. -/
theorem NodeHeartbeatRequest.nonneg {body : NodeHeartbeatRequest} (h : body.invalid = []) :
    0 ≤ body.cpuPercent ∧ 0 ≤ body.memoryPercent ∧ 0 ≤ body.freeDiskGb ∧ 0 ≤ body.activeJobs ∧
      0 ≤ body.activeFfmpegJobs ∧ 0 ≤ body.activeWhisperJobs := by
  unfold NodeHeartbeatRequest.invalid at h
  simpa using h

theorem Node.Sound.enroll {body : NodeRegisterRequest} {host : Option String} {root : ResolvedPath}
    {n n' : Node} (h : n.Sound root) (he : Enrolls body host root n n') : n'.Sound root where
  online := he.status.elim (fun hs => hs.trans h.online) fun hs => hs
  sharedRoot := he.sharedRoot.elim (fun hs => hs.trans h.sharedRoot) fun hs => hs
  nonNeg := by
    rw [he.rest]
    exact ⟨h.nonNeg.cpu, h.nonNeg.memory, h.nonNeg.jobs, h.nonNeg.ffmpegJobs, h.nonNeg.whisperJobs⟩
  disk := by
    rw [he.rest]
    exact h.disk

theorem Node.Sound.report {body : NodeHeartbeatRequest} {now : Instant} {root : ResolvedPath}
    {n n' : Node} (h : n.Sound root) (hv : body.invalid = []) (hrep : Reports body now n n') :
    n'.Sound root := by
  obtain ⟨hcpu, hmemory, hdisk, hjobs, hffmpeg, hwhisper⟩ := NodeHeartbeatRequest.nonneg hv
  refine ⟨?_, ?_, ⟨?_, ?_, ?_, ?_, ?_⟩, ?_⟩
  · rw [hrep.rest]
    exact h.online
  · rw [hrep.rest]
    exact h.sharedRoot
  · rcases hrep.cpuPercent with he | he <;> rw [he]
    exacts [h.nonNeg.cpu, hcpu]
  · rcases hrep.memoryPercent with he | he <;> rw [he]
    exacts [h.nonNeg.memory, hmemory]
  · exact (le_min h.nonNeg.jobs hjobs).trans hrep.activeJobs
  · exact (le_min h.nonNeg.ffmpegJobs hffmpeg).trans hrep.activeFfmpegJobs
  · exact (le_min h.nonNeg.whisperJobs hwhisper).trans hrep.activeWhisperJobs
  · rcases hrep.freeDiskGb with he | he <;> rw [he]
    exacts [h.disk, hdisk]

theorem Node.Sound.charge {root : ResolvedPath} {n n' : Node} (h : n.Sound root)
    (hch : Charges n n') : n'.Sound root := by
  refine ⟨?_, ?_, ⟨?_, ?_, h.nonNeg.jobs.trans hch.activeJobs,
    h.nonNeg.ffmpegJobs.trans hch.activeFfmpegJobs,
    h.nonNeg.whisperJobs.trans hch.activeWhisperJobs⟩, ?_⟩ <;> rw [hch.rest]
  exacts [h.online, h.sharedRoot, h.nonNeg.cpu, h.nonNeg.memory, h.disk]

/-- A node that can be relied on is neither offline nor on another root. -/
theorem Node.Sound.reason {root : ResolvedPath} {n : Node} (h : n.Sound root) {step : Step}
    {config : SchedulerConfig} (hroot : config.sharedRoot = root.str) {now : Instant}
    {e : EligibilityResult} (he : isNodeEligible step n config now = .ok e) :
    e.reason ≠ "node_offline" ∧ e.reason ≠ "shared_root_mismatch" := by
  unfold isNodeEligible at he
  rw [if_neg (not_not.2 h.online), if_neg (not_not.2 (h.sharedRoot.trans hroot.symm))] at he
  by_cases hlate : ¬ heartbeatExpired n config now ∧ ¬ n.cpuPercent > config.maxCpuPercent ∧
      ¬ n.memoryPercent > config.maxMemoryPercent ∧ ¬ n.freeDiskGb < config.minFreeDiskGb ∧
      n.thermalState ∉ ["serious", "critical"]
  · -- the filters that may raise
    obtain ⟨h₁, h₂, h₃, h₄, h₅⟩ := hlate
    rw [if_neg h₁, if_neg h₂, if_neg h₃, if_neg h₄, if_neg h₅] at he
    simp only [bind, Except.bind, pure, Except.pure] at he
    cases hv : avoidNodes step with
    | error => rw [hv] at he; cases he
    | ok v =>
      cases ha : v.contains n.id with
      | error => simp only [hv, ha] at he; cases he
      | ok avoided =>
        cases hb : batteryBlocked step n config with
        | error =>
          simp only [hv, ha, hb] at he
          split_ifs at he
          cases he
          decide
        | ok blocked =>
          simp only [hv, ha, hb] at he
          split_ifs at he <;> cases he <;> decide
  · iterate 5
      split at he
      · cases he
        decide
    rename_i h₁ h₂ h₃ h₄ h₅
    exact absurd ⟨h₁, h₂, h₃, h₄, h₅⟩ hlate

/-- **The registry is sound.**  In a run from a database without nodes, whose requests see the
    Controller's root as canonical: every transition writes a row as `NodeStep` allows; every
    node is online, on the root, and its numbers are not negative; every column is what a
    request about this node said; and no pass rejects it as offline or for its root. -/
theorem registry_sound (h₀ : db₀.nodes = .empty) (h : app.Run db₀ tr c)
    (hroot : ∀ q ∈ c.procs, q.1.ambient.fs.resolve app.sharedRoot.str = app.sharedRoot) :
    (∀ t ∈ tr, ∀ k, NodeStep t k) ∧
      ∀ n ∈ c.db.nodes.rows, n.Sound app.sharedRoot ∧ Accounted tr n.id n ∧
        ∀ step now e, isNodeEligible step n app.schedulerConfig now = .ok e →
          e.reason ≠ "node_offline" ∧ e.reason ≠ "shared_root_mismatch" := by
  refine ⟨fun t ht k => h.nodeStep ht k, fun n hn => ?_⟩
  have hregisters : ∀ t ∈ tr, ∀ {i r body root}, t.By i r → Registers app r body root →
      root = app.sharedRoot := by
    intro t ht i r body root hby hr
    obtain ⟨p, hp⟩ := Service.Run.handler_stays h ht hby
    exact hr.controller.symm.trans (hroot _ (List.mem_of_getElem? hp))
  have hinv := h.node_inv (k := n.id)
    (P := fun tr o => ∀ n', o = some n' → n'.Sound app.sharedRoot ∧ Accounted tr n.id n') ?_ ?_
  · obtain ⟨hsound, hacc⟩ := hinv n (Table.get?_of_mem hn)
    exact ⟨hsound, hacc, fun step now e he => hsound.reason rfl he⟩
  · intro n' hn'
    rw [h₀] at hn'
    cases hn'
  · intro tr' t ht hstep ih n'' hpost
    cases hstep with
    | same he =>
      obtain ⟨hsound, hacc⟩ := ih n'' (he.symm.trans hpost)
      exact ⟨hsound, hacc.mono⟩
    | @enroll i r body root n₁ n₂ hby hr hk hn₁ hn₂ hen =>
      obtain ⟨hsound, hacc⟩ := ih n₁ hn₁
      cases hpost.symm.trans hn₂
      obtain rfl := hregisters t ht hby hr
      exact ⟨hsound.enroll hen, hacc.enroll hby hr hk hen⟩
    | @insert i r body root createdAt updatedAt now hby hr hk hnone hn₂ =>
      cases hpost.symm.trans hn₂
      obtain rfl := hregisters t ht hby hr
      refine ⟨⟨rfl, rfl, ⟨le_rfl, le_rfl, le_rfl, le_rfl, le_rfl⟩, le_rfl⟩, .insert hby hr hk ..⟩
    | @report i r body n₁ n₂ hby hc hv hn₁ hn₂ hrep =>
      obtain ⟨hsound, hacc⟩ := ih n₁ hn₁
      cases hpost.symm.trans hn₂
      exact ⟨hsound.report hv hrep, hacc.report hby hc hv hrep⟩
    | @charge i r nodeId body n₁ n₂ hby hc hne hn₁ hn₂ hch =>
      obtain ⟨hsound, hacc⟩ := ih n₁ hn₁
      cases hpost.symm.trans hn₂
      exact ⟨hsound.charge hch, hacc.charge hch⟩

/-- The node of the sample run, which has reported and was given a step. -/
theorem registry_sound_sample :
    ((sampleRun (oneByOne 0 sampleAssigned)).2.db.nodes.rows.map fun n => (n.id, n.activeJobs)) =
        [("mac", 1)] ∧
      ∀ n ∈ (sampleRun (oneByOne 0 sampleAssigned)).2.db.nodes.rows,
        n.Sound sampleApp.sharedRoot ∧ Accounted (sampleRun (oneByOne 0 sampleAssigned)).1 n.id n := by
  have hresolve : sampleFs.resolve sampleApp.sharedRoot.str = sampleApp.sharedRoot := by
    decide +kernel
  have hsound := registry_sound rfl (sampleRun_run (oneByOne 0 sampleAssigned)) fun q hq => by
    have hq := sampleRun_requests hq
    simp only [sampleAssigned, List.mem_cons, List.not_mem_nil, or_false] at hq
    have hfs : q.1.ambient.fs = sampleFs := by rcases hq with hq | hq | hq <;> simp [hq, sampleRequest]
    simpa only [hfs] using hresolve
  refine ⟨by decide +kernel, fun n hn => ?_⟩
  obtain ⟨hsound, hacc, -⟩ := hsound.2 n hn
  exact ⟨hsound, hacc⟩

end MediaOrchard
