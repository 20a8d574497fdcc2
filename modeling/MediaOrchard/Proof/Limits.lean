/-
  Concurrency limits over whole runs.

  The scheduler checks a limit against a counter of the node row, charges the
  counter for each assignment, and every heartbeat overwrites it with the number
  of running steps, so that a step assigned but not yet started is forgotten.

  * `scheduleLoop_fits`: a pass keeps to the limit of a class if each counter
    below its limit counts the slots taken, or there is room for the whole queue;
  * `concurrency_limits`: the limits hold over runs whose heartbeats find every
    assigned step running; they need not otherwise (`concurrency_limits_fails`).
-/
import MediaOrchard.Proof.Exec
import MediaOrchard.Proof.Rows

namespace MediaOrchard

open Keyed Interleave Prog

/-! ## Slots -/

/-- The classes of steps that have a limit. -/
inductive StepClass where
  | whisper
  | ffmpeg

/-- The step is in the class. -/
def StepClass.has : StepClass → Step → Bool
  | whisper => isWhisperStep
  | ffmpeg => isFfmpegStep

/-- The counter of the class. -/
def Node.active (n : Node) : StepClass → ℤ
  | .whisper => n.activeWhisperJobs
  | .ffmpeg => n.activeFfmpegJobs

/-- The limit of the class. -/
def Node.limit (n : Node) : StepClass → ℤ
  | .whisper => n.maxWhisperJobs
  | .ffmpeg => n.maxFfmpegJobs

/-- The counter a heartbeat reports. -/
def NodeHeartbeatRequest.active (body : NodeHeartbeatRequest) : StepClass → ℤ
  | .whisper => body.activeWhisperJobs
  | .ffmpeg => body.activeFfmpegJobs

/-- The step takes a slot of its class on the node. -/
def Step.occupies (x : Step) (k : StepClass) (n : String) : Bool :=
  k.has x ∧ (x.status = .assigned ∨ x.status = .running) ∧ x.assignedNodeId = some n

/-- The step waits for a slot of its class. -/
def Step.waits (x : Step) (k : StepClass) : Bool := k.has x ∧ x.status = .queued

/-- The slots of a class taken on a node. -/
def Db.occupied (db : Db) (k : StepClass) (n : String) : ℕ := db.steps.count (·.occupies k n)

/-- The queued steps of a class. -/
def Db.waiting (db : Db) (k : StepClass) : ℕ := db.steps.count (·.waits k)

theorem StepClass.has_of_toolName {k : StepClass} {x x' : Step} (h : x'.toolName = x.toolName) :
    k.has x' = k.has x := by
  cases k <;> simp [StepClass.has, isWhisperStep, isFfmpegStep, h]

theorem not_occupies_queued {x : Step} {k : StepClass} {n : String} (h : x.status = .queued) :
    x.occupies k n = false := by
  simp [Step.occupies, h]

theorem waits_queued {x : Step} {k : StepClass} (h : x.status = .queued) :
    x.waits k = k.has x := by
  simp [Step.waits, h]

theorem not_waits_assigned (x : Step) (k : StepClass) (m : String) (now : Instant) :
    (x.assigned m now).waits k = false := by
  simp [Step.waits, Step.assigned]

theorem occupies_assigned (x : Step) (k : StepClass) (n m : String) (now : Instant) :
    (x.assigned m now).occupies k n = (k.has x && decide (m = n)) := by
  have : k.has (x.assigned m now) = k.has x := StepClass.has_of_toolName rfl
  unfold Step.occupies
  rw [this]
  simp [Step.assigned]

theorem Node.charge_active (x : Step) (n : Node) (k : StepClass) :
    (n.charge x).active k = n.active k + if k.has x then 1 else 0 := by
  cases k with
  | whisper => by_cases hw : isWhisperStep x <;> simp [Node.active, Node.charge, StepClass.has, hw]
  | ffmpeg =>
    by_cases hw : isWhisperStep x
    · simp [Node.active, Node.charge, StepClass.has, hw, not_whisper_and_ffmpeg x hw]
    · by_cases hf : isFfmpegStep x <;> simp [Node.active, Node.charge, StepClass.has, hw, hf]

theorem Node.charge_limit (x : Step) (n : Node) (k : StepClass) :
    (n.charge x).limit k = n.limit k := by
  cases k <;> rfl

/-! ## A scheduling pass -/

/-- With `taken` slots taken and `queue` steps waiting, a pass that trusts the
    counter `active` keeps to the limit. -/
def Fits (taken active limit : ℤ) (queue : ℕ) : Prop :=
  taken ≤ limit ∧ (taken ≤ active ∨ limit ≤ active ∨ taken + queue ≤ limit)

theorem Fits.mono {taken taken' active limit : ℤ} {queue queue' : ℕ}
    (h : Fits taken active limit queue) (ht : taken' ≤ taken) (hq : queue' ≤ queue) :
    Fits taken' active limit queue' := by
  unfold Fits at *
  omega

/-- Below the limit, a waiting step takes a slot and is counted. -/
theorem Fits.charge {taken active limit : ℤ} {queue : ℕ} (h : Fits taken active limit (queue + 1))
    (hfree : active < limit) : Fits (taken + 1) (active + 1) limit queue := by
  unfold Fits at *
  push_cast at h
  omega

/-- A step assigned to a node with a free slot takes it, and the node is charged
    for it. -/
theorem Fits.assign {nodes : List Node} {sel : Node} {step : Step} {k : StepClass}
    {taken : String → ℤ} (now : Instant) (queue : ℕ) (hnd : (nodes.map Node.id).Nodup)
    (hmem : sel ∈ nodes)
    (hfree : k.has step → sel.active k < sel.limit k)
    (ht : ∀ n ∈ nodes, Fits (taken n.id) (n.active k) (n.limit k)
      (queue + if k.has step then 1 else 0)) :
    ∀ n ∈ nodes.map fun n => if n.id = sel.id then n.charge step else n,
      Fits (taken n.id + if (step.assigned sel.id now).occupies k n.id then 1 else 0)
        (n.active k) (n.limit k) queue := by
  intro n' hn'
  obtain ⟨n, hn, rfl⟩ := List.mem_map.1 hn'
  have hfits := ht n hn
  by_cases hsame : n.id = sel.id
  · obtain rfl : n = sel := List.inj_on_of_nodup_map hnd hn hmem hsame
    have hid : (n.charge step).id = n.id := rfl
    rw [if_pos rfl, hid, Node.charge_active, Node.charge_limit, occupies_assigned]
    simp only [decide_true, Bool.and_true]
    split_ifs at hfits ⊢ with hp
    · exact hfits.charge (hfree hp)
    · simpa using hfits
  · rw [if_neg hsame, occupies_assigned]
    simp only [Ne.symm hsame, decide_false, Bool.and_false, Bool.false_eq_true, if_false, add_zero]
    exact hfits.mono le_rfl (Nat.le_add_right _ _)

/-- **A scheduling pass keeps to the limits** of the nodes on which it fits, and
    the steps it passes over fit again. -/
theorem scheduleLoop_fits {float : ℤ → Except PyError ℚ} {config : SchedulerConfig}
    {now : Instant} {steps out : List Step} {nodes nodes' : List Node} (k : StepClass) (hq : ∀ s ∈ steps, s.status = .queued)
    (hnd : (nodes.map Node.id).Nodup)
    (h : scheduleLoop float config now steps nodes = .ok (out, nodes')) (taken : String → ℤ)
    (passed : ℕ) (ht : ∀ n ∈ nodes,
      Fits (taken n.id) (n.active k) (n.limit k) (passed + steps.countP k.has)) :
    ∀ n ∈ nodes', Fits (taken n.id + out.countP (·.occupies k n.id)) (n.active k) (n.limit k)
      (passed + out.countP (·.waits k)) := by
  induction steps generalizing nodes out taken passed with
  | nil =>
    cases h
    intro n hn
    simpa using ht n hn
  | cons step rest ih =>
    have hq' : ∀ s ∈ rest, s.status = .queued := fun s hs => hq s (by simp [hs])
    obtain ⟨d, step', mid, rest', ha, hl, rfl⟩ := scheduleLoop_cons (hq step (by simp)) h
    obtain ⟨hs, hd, ⟨-, rfl, rfl⟩ | ⟨sel, hsel, rfl, rfl⟩⟩ := assignBestNode_ok ha
    · -- no node is eligible: the step waits on
      have hrest := ih hq' hnd hl taken (passed + if k.has step' then 1 else 0) fun n hn =>
        (ht n hn).mono le_rfl (by rw [List.countP_cons]; omega)
      intro n hn
      refine (hrest n hn).mono ?_ ?_
      · rw [List.countP_cons, not_occupies_queued hs]
        simp
      · rw [List.countP_cons, waits_queued hs]
        omega
    -- `sel` has a free slot, which the step takes
    obtain ⟨hmem, he⟩ := selectNodeForStep_selected hd hsel
    have hfree : k.has step → sel.active k < sel.limit k := by
      have hslot := (eligible_iff.1 he).2
      cases k
      exacts [hslot.whisper, hslot.ffmpeg]
    have hmid := Fits.assign now (passed + rest.countP k.has) hnd hmem hfree fun n hn => by
      rw [Nat.add_assoc, ← List.countP_cons]
      exact ht n hn
    have hnd' : ((nodes.map fun n => if n.id = sel.id then n.charge step else n).map
        Node.id).Nodup := by
      rw [List.map_map, List.map_congr_left (g := Node.id) fun n _ => ?_]
      · exact hnd
      · rw [Function.comp]
        split_ifs <;> rfl
    have hrest := ih hq' hnd' hl
      (fun n => taken n + if (step.assigned sel.id now).occupies k n then 1 else 0) passed hmid
    intro n hn
    refine (hrest n hn).mono ?_ ?_
    · rw [List.countP_cons]
      push_cast
      split_ifs <;> omega
    · rw [List.countP_cons, not_waits_assigned]
      simp

/-! ## A heartbeat -/

theorem mem_queuedSteps {db : Db} {x : Step} :
    x ∈ queuedSteps db ↔ x ∈ db.steps.rows ∧ x.status = .queued := by
  simp [queuedSteps, Table.mem_select]

theorem countP_queuedSteps (db : Db) (k : StepClass) :
    (queuedSteps db).countP k.has = db.waiting k := by
  unfold queuedSteps
  rw [List.Perm.countP_eq _ (List.perm_insertionSort _ _), Table.select, List.countP_filter]
  simp [Db.waiting, Table.count, Step.waits, Bool.decide_and]

/-- The flush of a pass replaces the rows of the steps it went through. -/
theorem flushStep_of_forall₂ {steps out : List Step} (hnd : (steps.map Step.id).Nodup)
    (h : List.Forall₂ (fun s s' : Step => s'.id = s.id) steps out) :
    steps.map (flushStep out) = out := by
  have hids : out.map Step.id = steps.map Step.id := by
    induction h with
    | nil => rfl
    | cons h _ ih => rw [List.map_cons, List.map_cons, h, ih (List.nodup_cons.1 hnd).2]
  have hfind : ∀ s s' : Step, s' ∈ out → s'.id = s.id → flushStep out s = s' := by
    intro s s' hs' hid
    have : (⟨out, hids ▸ hnd⟩ : Table Step).get? s'.id = some s' := Table.get?_of_mem hs'
    unfold flushStep
    rw [← hid, show out.find? (fun t => t.id = s'.id) = some s' from this]
    rfl
  have hmap : ∀ l, l ⊆ out → List.Forall₂ (fun s s' : Step => s'.id = s.id) steps l →
      steps.map (flushStep out) = l := by
    clear hnd h hids
    intro l hl h
    induction h with
    | nil => rfl
    | @cons s s' steps l hid _ ih =>
      rw [List.map_cons, hfind s s' (hl List.mem_cons_self) hid,
        ih fun x hx => hl (List.mem_cons_of_mem _ hx)]
  exact hmap out (List.Subset.refl _) h

/-- The steps after the flush of a pass are those not queued before, and those
    that it went through. -/
theorem count_flushStep {db : Db} {out : List Step} {p : Step → Bool}
    (h : List.Forall₂ (fun s s' : Step => s'.id = s.id) (queuedSteps db) out) :
    (db.steps.update (flushStep out) (flushStep_id out)).count p =
      db.steps.count (fun s => p s && !decide (s.status = .queued)) + out.countP p := by
  have hperm : (queuedSteps db).Perm (db.steps.rows.filter fun s => s.status = .queued) :=
    List.perm_insertionSort _ _
  have hnd : ((queuedSteps db).map Step.id).Nodup :=
    (hperm.map _).nodup_iff.2 (db.steps.nodup.sublist (List.filter_sublist.map _))
  have hout : (db.steps.rows.filter fun s => s.status = .queued).countP (p ∘ flushStep out) =
      out.countP p := by
    rw [← hperm.countP_eq, ← List.countP_map, flushStep_of_forall₂ hnd h]
  have hfix : ∀ r ∈ db.steps.rows.filter fun s => !decide (s.status = .queued),
      flushStep out r = r := by
    intro r hr
    rw [List.mem_filter] at hr
    unfold flushStep
    rw [List.find?_eq_none.2 fun s' hs' hid => ?_, Option.getD_none]
    obtain ⟨s, hs, hsid⟩ := exists_of_forall₂ h hs'
    have hs := mem_queuedSteps.1 hs
    have : s = r := Table.eq_of_key hs.1 hr.1 (hsid.symm.trans (of_decide_eq_true hid))
    subst this
    simp [hs.2] at hr
  have hrest : (db.steps.rows.filter fun s => !decide (s.status = .queued)).countP
      (p ∘ flushStep out) = db.steps.count fun s => p s && !decide (s.status = .queued) := by
    rw [List.countP_congr fun r hr => by rw [Function.comp, hfix r hr], List.countP_filter]
    rfl
  show (db.steps.rows.map (flushStep out)).countP p = _
  rw [List.countP_map, List.countP_eq_countP_filter_add _ _ fun s => decide (s.status = .queued),
    hout, hrest, Nat.add_comm]

/-- **A heartbeat stores the nodes as its pass leaves them**, when nothing is
    written in between. -/
theorem flushNode_session {db : Db} {loaded own r : Node} {g : Node → Node}
    (hl : db.nodes.get? loaded.id = some loaded) (hid : own.id = loaded.id)
    (hg : ∀ n : Node, n.SameButCounters (g n)) (hr : r ∈ db.nodes.rows) :
    flushNode loaded own ((sessionNodes db own).map g) r =
      g (if r.id = own.id then own else r) := by
  have hheld : (if r.id = loaded.id then Node.flush loaded own r else r) =
      if r.id = own.id then own else r := by
    rw [hid]
    split_ifs with h
    · obtain rfl : r = loaded := Table.eq_of_key hr (Table.mem_of_get? hl) h
      exact Node.flush_loaded hid
    · rfl
  have hkey : ∀ r : Node, (g (if r.id = own.id then own else r)).id = r.id := fun r => by
    rw [(hg _).id_eq]
    split_ifs with h
    exacts [h.symm, rfl]
  unfold flushNode
  dsimp only
  rw [hheld, hid.symm]
  split
  · rename_i n hfind
    obtain ⟨m, hm, rfl⟩ := List.mem_map.1 (List.mem_of_find?_eq_some hfind)
    obtain ⟨r', hr', rfl⟩ := List.mem_map.1 hm
    have hfound := List.find?_some hfind
    rw [hkey, decide_eq_true_eq] at hfound
    obtain rfl : r' = r := Table.eq_of_key hr' hr hfound
    exact Node.flush_loaded (hg _).id_eq
  · rename_i hfind
    have := List.find?_eq_none.1 hfind _ (List.mem_map_of_mem (List.mem_map_of_mem hr))
    rw [hkey] at this
    simp at this

/-- Every node is within its limits, and its counters can be trusted. -/
def Counted (db : Db) : Prop :=
  ∀ n ∈ db.nodes.rows, ∀ k, Fits (db.occupied k n.id) (n.active k) (n.limit k) (db.waiting k)

theorem scheduleQueuedSteps_eq (app : App) (now : Instant) (own : Node) (db : Db) :
    scheduleQueuedSteps app now own db =
      scheduleLoop priorityFloat app.schedulerConfig now (queuedSteps db) (sessionNodes db own) := by
  unfold scheduleQueuedSteps
  split_ifs with h
  · rw [List.isEmpty_iff.1 h]; rfl
  · rfl

/-- **The commit of a heartbeat keeps to the limits** if its pass fits on every
    node. -/
theorem heartbeatCommit_counted {app : App} {now : Instant} {loaded own : Node} {db : Db}
    (hl : db.nodes.get? loaded.id = some loaded) (hid : own.id = loaded.id) (hdb : Counted db)
    (hfit : ∀ n ∈ sessionNodes db own, ∀ k,
      Fits (db.occupied k n.id) (n.active k) (n.limit k) (db.waiting k)) :
    Counted (heartbeatCommit app now loaded own db).2 := by
  unfold heartbeatCommit
  cases h : scheduleQueuedSteps app now own db with
  | error e => exact hdb
  | ok r =>
    obtain ⟨out, nodes⟩ := r
    rw [scheduleQueuedSteps_eq] at h
    have hq : ∀ s ∈ queuedSteps db, s.status = .queued := fun s hs => (mem_queuedSteps.1 hs).2
    have hnd : ((sessionNodes db own).map Node.id).Nodup := by
      rw [sessionNodes, List.map_map, List.map_congr_left (g := Node.id) fun r _ => ?_]
      · exact db.nodes.nodup
      · rw [Function.comp]
        split_ifs with h
        exacts [h.symm, rfl]
    have hsteps : List.Forall₂ (fun s s' : Step => s'.id = s.id) (queuedSteps db) out :=
      (scheduleLoop_steps hq h).imp fun s s' hss => by
        rcases hss with rfl | ⟨n, -, rfl⟩ <;> rfl
    obtain ⟨g, rfl, hg⟩ := scheduleLoop_nodes hq h
    intro n' hn' k
    obtain ⟨r, hr, rfl⟩ := List.mem_map.1 hn'
    have hpass := scheduleLoop_fits k hq hnd h (fun n => db.occupied k n) 0
      (fun n hn => by rw [countP_queuedSteps, Nat.zero_add]; exact hfit n hn k) _
      (List.mem_map_of_mem (List.mem_map_of_mem hr))
    rw [← flushNode_session hl hid hg hr] at hpass
    refine hpass.mono ?_ ?_
    · have hle : db.steps.count (fun s => s.occupies k (flushNode loaded own
          ((sessionNodes db own).map g) r).id && !decide (s.status = .queued)) ≤ db.occupied k
          (flushNode loaded own ((sessionNodes db own).map g) r).id :=
        List.countP_mono_left fun s _ hs => (Bool.and_eq_true_iff.1 hs).1
      unfold Db.occupied at hle ⊢
      rw [count_flushStep hsteps]
      push_cast
      omega
    · have hzero : db.steps.count (fun s => s.waits k && !decide (s.status = .queued)) = 0 :=
        List.countP_eq_zero.2 fun s _ hs => by
          simp only [Step.waits, Bool.decide_and, Bool.decide_eq_true, Bool.and_eq_true,
            decide_eq_true_eq, Bool.not_eq_true', decide_eq_false_iff_not] at hs
          exact hs.2 hs.1.2
      unfold Db.waiting
      rw [count_flushStep hsteps, hzero]

/-- A heartbeat handled alone leaves the database or commits for its node. -/
theorem heartbeatNode_exec (app : App) {r : Request} {nodeId : String}
    {body : NodeHeartbeatRequest} (hc : r.call = .heartbeatNode nodeId body) (db : Db) :
    ((app.handle r).exec db).2 = db ∨ ∃ loaded now updatedAt,
      db.nodes.get? nodeId = some loaded ∧ ((app.handle r).exec db).2 =
        (heartbeatCommit app now loaded (loaded.heartbeat body now updatedAt) db).2 := by
  unfold App.handle
  rw [hc]
  rcases requireWorkerAuth_cases app r.headers with hauth | ⟨e, hauth⟩
  swap
  · rw [hauth]; exact Or.inl rfl
  rw [hauth]
  by_cases hv : body.invalid = []
  swap
  · simp only [heartbeatNode, requireValid, if_neg hv]
    exact Or.inl rfl
  cases hl : db.nodes.get? nodeId with
  | none =>
    simp only [heartbeatNode, requireValid, if_pos hv, getNode, bind_eq, ret_bind, exec_bind,
      exec_read, hl]
    exact Or.inl rfl
  | some loaded =>
    refine Or.inr ⟨loaded, r.ambient.clock 0, r.ambient.clock 1, rfl, ?_⟩
    generalize hcm : heartbeatCommit app (r.ambient.clock 0) loaded _ db = cm
    simp only [heartbeatNode, requireValid, if_pos hv, getNode, bind_eq, ret_bind, exec_bind,
      exec_read, hl, pure_eq, exec_ret, exec_atomic, hcm]
    rcases cm.1 with e | _
    · rfl
    · simp only [refreshNode, bind_eq, exec_bind, exec_read]
      cases cm.2.nodes.get? nodeId <;> rfl

/-! ## Whole runs -/

theorem Step.occupies_of {x x' : Step} {k : StepClass} {n : String}
    (h : x'.occupies k n) (ht : x'.toolName = x.toolName)
    (hn : x'.assignedNodeId = x.assignedNodeId)
    (hs : x.status = .assigned ∨ x.status = .running) : x.occupies k n := by
  simp only [Step.occupies, decide_eq_true_eq] at h ⊢
  exact ⟨StepClass.has_of_toolName ht ▸ h.1, hs, hn ▸ h.2.2⟩

theorem StepWrite.occupies_le {db : Db} {r : Request} {x x' : Step} {k : StepClass} {n : String}
    (h : StepWrite db r x x') (hr : ∀ m body, r.call ≠ .heartbeatNode m body)
    (hx : x'.occupies k n) : x.occupies k n := by
  cases h with
  | assign hc => exact absurd hc (hr _ _)
  | claimNext _ hs | claim _ _ hs | start _ _ hs => exact Step.occupies_of hx rfl rfl (Or.inl hs)
  | progress _ _ hs | complete _ _ hs => exact Step.occupies_of hx rfl rfl (Or.inr hs)
  | fail _ _ hs => exact Step.occupies_of hx rfl rfl hs

theorem StepWrite.waits_le {db : Db} {r : Request} {x x' : Step} {k : StepClass}
    (h : StepWrite db r x x') (hx : x'.waits k) : x.waits k := by
  have hold : x'.toolName = x.toolName → x'.status = x.status → x.waits k := fun ht hs => by
    simp only [Step.waits, decide_eq_true_eq] at hx ⊢
    exact ⟨StepClass.has_of_toolName ht ▸ hx.1, hs ▸ hx.2⟩
  cases h with
  | assign | start | complete | fail => simp [Step.waits, Step.assigned] at hx
  | claimNext | claim | progress => exact hold rfl rfl

/-- A created step is in no class. -/
theorem newRows_not_has (app : App) (env : Ambient) (body : JobCreateRequest)
    (inputFile outputDir : String) (k : StepClass) :
    k.has (newRows app env body inputFile outputDir).2.2 = false := by
  cases k <;> simp [StepClass.has, isWhisperStep, isFfmpegStep, newRows, List.isPrefixOf]

/-- A request other than a heartbeat or a registration takes no slot. -/
theorem Effect.counted {app : App} {r : Request} {db db' : Db} (h : Counted db)
    (hr : ∀ m body, r.call ≠ .heartbeatNode m body) (hreg : ∀ body, r.call ≠ .registerNode body)
    (he : Effect app r db db') : Counted db' := by
  cases he with
  | read | job => exact h
  | steps f hf hw =>
    have hle : ∀ p : Step → Bool, (∀ x x', StepWrite db r x x' → p x' → p x) →
        (db.steps.update f hf).count p ≤ db.steps.count p := by
      intro p hp
      unfold Table.count
      rw [Table.rows_update, List.countP_map]
      refine List.countP_mono_left fun x hx ho => ?_
      rcases hw x hx with he | hw
      · rwa [Function.comp, he] at ho
      · exact hp _ _ hw ho
    exact fun n hn k => (h n hn k).mono (Nat.cast_le.2 (hle _ fun _ _ hw => hw.occupies_le hr))
      (hle _ fun _ _ hw => hw.waits_le)
  | heartbeat _ _ _ _ hc => exact absurd hc (hr _ _)
  | register _ hc => exact absurd hc (hreg _)
  | @create body inputFile outputDir jobs plans steps _ _ hs =>
    have hnew : ∀ p : Step → Bool, p (newRows app r.ambient body inputFile outputDir).2.2 = false →
        steps.count p = db.steps.count p := by
      intro p hp
      unfold Table.count
      rw [(Table.insert?_eq_some hs).2, List.countP_append, List.countP_singleton, hp]
      simp
    intro n hn k
    refine (h n hn k).mono (Nat.cast_le.2 (hnew _ ?_).le) (hnew _ ?_).le
    · exact not_occupies_queued rfl
    · rw [waits_queued rfl]
      exact newRows_not_has ..

/-- The step runs on the node. -/
def Step.runsOn (x : Step) (n : String) : Bool := x.status = .running ∧ x.assignedNodeId = some n

/-- The steps of a class that run on a node. -/
def Db.running (db : Db) (k : StepClass) (n : String) : ℕ :=
  db.steps.count fun x => k.has x && x.runsOn n

/-- If the request is a heartbeat, then it reports the steps that run on its node. -/
def Honest (db : Db) (r : Request) : Prop :=
  ∀ nodeId body, r.call = .heartbeatNode nodeId body →
    body.activeJobs = db.steps.count (·.runsOn nodeId) ∧
      ∀ k : StepClass, body.active k = db.running k nodeId

/-- If the request is a heartbeat of a node, then for every class each step of it
    assigned to the node is running, or as many run as the limit allows, or the
    limit has room for every queued step. -/
def NoneForgotten (db : Db) (r : Request) : Prop :=
  ∀ nodeId body, r.call = .heartbeatNode nodeId body → ∀ n, db.nodes.get? nodeId = some n → ∀ k,
    db.occupied k nodeId = db.running k nodeId ∨ n.limit k ≤ db.running k nodeId ∨
      (db.occupied k nodeId : ℤ) + db.waiting k ≤ n.limit k

/-- **One request keeps to the limits.** -/
theorem Counted.serve {app : App} {db : Db} {r : Request} (h : Counted db)
    (hreg : ∀ body, r.call ≠ .registerNode body) (ho : Honest db r) (hf : NoneForgotten db r) :
    Counted ((app.handle r).exec db).2 := by
  by_cases hr : ∀ m body, r.call ≠ .heartbeatNode m body
  · exact exec_inv (fun _ _ h he => he.counted h hr hreg) h
  simp only [not_forall, not_not] at hr
  obtain ⟨nodeId, body, hr⟩ := hr
  rcases heartbeatNode_exec app hr db with he | ⟨loaded, now, up, hl, he⟩
  · rw [he]; exact h
  rw [he]
  obtain rfl : loaded.id = nodeId := Table.key_of_get? hl
  refine heartbeatCommit_counted hl rfl h fun n hn k => ?_
  obtain ⟨m, hmem, rfl⟩ := List.mem_map.1 hn
  split_ifs with hid
  · -- the node of the heartbeat: its counter is the report
    have hlim := h loaded (Table.mem_of_get? hl) k
    have hroom := hf _ _ hr loaded hl k
    rw [← (ho _ _ hr).2 k] at hroom
    have hactive : (loaded.heartbeat body now up).active k = body.active k := by cases k <;> rfl
    have hlimit : (loaded.heartbeat body now up).limit k = loaded.limit k := by cases k <;> rfl
    rw [hactive, hlimit]
    refine ⟨hlim.1, hroom.imp_left fun he => ?_⟩
    rw [(ho _ _ hr).2 k]
    exact Nat.cast_le.2 he.le
  · exact h m hmem k

/-- **The concurrency limits.**  From a database in which nothing is assigned and
    no limit or counter is negative, while no node is registered again and every
    heartbeat is honest and forgets no step, the steps of a class assigned to or
    running on a node are within its limit. -/
theorem concurrency_limits {app : App} {db₀ db : Db} (h₀ : db₀.Initial)
    (hlim : ∀ n ∈ db₀.nodes.rows, ∀ k, 0 ≤ n.limit k ∧ 0 ≤ n.active k)
    (h : app.controller.Served
      (fun db r => (∀ body, r.call ≠ .registerNode body) ∧ Honest db r ∧ NoneForgotten db r)
      db₀ db) :
    ∀ n ∈ db.nodes.rows, ∀ k, (db.occupied k n.id : ℤ) ≤ n.limit k := by
  have hcounted : Counted db := by
    induction h with
    | init =>
      intro n hn k
      have hzero : db₀.occupied k n.id = 0 := by
        refine List.countP_eq_zero.2 fun x hx ho => ?_
        rcases (h₀.steps x hx).status with hs | hs <;> simp [Step.occupies, hs] at ho
      rw [hzero]
      exact ⟨(hlim n hn k).1, Or.inl (hlim n hn k).2⟩
    | serve _ r hr ih => exact ih.serve hr.1 hr.2.1 hr.2.2
  exact fun n hn k => (hcounted n hn k).1

/-- Two queued Whisper steps, and the heartbeats of a node that takes one. -/
def sampleWhisper : Db := sampleQueue "whisper"

def sampleBeat (now : ℤ) : Request := sampleRequest now (.heartbeatNode "mac" sampleHeartbeat)

theorem sampleWhisper_limits :
    ∀ n ∈ sampleWhisper.nodes.rows, ∀ k, 0 ≤ n.limit k ∧ 0 ≤ n.active k := by
  intro n hn k
  cases List.mem_singleton.1 hn
  cases k <;> decide

/-- Nothing runs or is assigned yet when the first heartbeat arrives. -/
theorem sampleBeat_honest : Honest sampleWhisper (sampleBeat 2) := by
  intro nodeId body hb
  cases hb
  exact ⟨by decide +kernel, fun k => by cases k <;> decide +kernel⟩

theorem concurrency_limits_sample :
    let db := sampleServe sampleWhisper [sampleBeat 2]
    db.occupied .whisper "mac" = 1 ∧
      ∀ n ∈ db.nodes.rows, ∀ k, (db.occupied k n.id : ℤ) ≤ n.limit k := by
  have hnone : NoneForgotten sampleWhisper (sampleBeat 2) := by
    intro nodeId body hb n hn k
    cases hb
    cases k <;> exact Or.inl (by decide +kernel)
  exact ⟨by decide +kernel, concurrency_limits (sampleQueue_initial _) sampleWhisper_limits
    (Service.Served.init.serve (sampleBeat 2) ⟨nofun, sampleBeat_honest, hnone⟩)⟩

/-- At the second heartbeat the step assigned by the first does not run yet: the
    node reports zero, and is assigned another one. -/
theorem concurrency_limits_fails :
    ∃ db, sampleApp.controller.Served (fun db r => (∀ body, r.call ≠ .registerNode body) ∧
        Honest db r) sampleWhisper db ∧
      ∃ n ∈ db.nodes.rows, n.limit .whisper < db.occupied .whisper n.id := by
  have hsecond : Honest (sampleServe sampleWhisper [sampleBeat 2]) (sampleBeat 3) := by
    intro nodeId body hb
    cases hb
    exact ⟨by decide +kernel, fun k => by cases k <;> decide +kernel⟩
  refine ⟨_, (Service.Served.init.serve (sampleBeat 2) ⟨nofun, sampleBeat_honest⟩).serve
    (sampleBeat 3) ⟨nofun, hsecond⟩, ?_⟩
  decide +kernel

end MediaOrchard
