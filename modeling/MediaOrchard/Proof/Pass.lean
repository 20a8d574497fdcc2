/-
  The scheduling pass as a greedy pass of the queue over the nodes.

  * `scheduleLoop_eq_pass`: the loop of `schedule_queued_steps` is a pass whose
    service of a step is `assign_best_node`;
  * `serveStep_lawful`: an assignment only raises the counters of nodes, and a
    node without a slot gets none from that;
  * `scheduling_pass`: a pass is sound, keeps to the limits, leaves no step
    waiting that some node could take, and has nothing left to do.
-/
import MediaOrchard.Lib.Greedy
import MediaOrchard.Proof.Limits

namespace MediaOrchard

open Greedy

variable {float : ℤ → Except PyError ℚ} {config : SchedulerConfig} {now : Instant}
  {step step' : Step} {steps out : List Step} {nodes nodes' : List Node}

/-! ## The loop as a pass -/

/-- One iteration of `schedule_queued_steps`: the step is refused if it is not
    queued or no node is selected. -/
def serveStep (float : ℤ → Except PyError ℚ) (config : SchedulerConfig) (now : Instant)
    (nodes : List Node) (step : Step) : Except SchedulerExn (Option (Step × List Node)) :=
  match assignBestNode float step nodes config now with
  | .error (.schedulerError _) => .ok none
  | .error e => .error e
  | .ok (d, step', nodes') => .ok (d.selectedNode.map fun _ => (step', nodes'))

/-- The nodes after `sel` has been charged with the step. -/
def chargeNode (step : Step) (sel : Node) (nodes : List Node) : List Node :=
  nodes.map fun n => if n.id = sel.id then n.charge step else n

variable (float nodes config now) in
theorem assignBestNode_not_queued (h : step.status ≠ .queued) :
    ∃ t, assignBestNode float step nodes config now = .error (.schedulerError t) := by
  unfold assignBestNode
  rw [if_pos h]
  exact ⟨_, rfl⟩

theorem assignBestNode_none {d : SchedulerDecision} (hq : step.status = .queued)
    (hd : selectNodeForStep float step nodes config now = .ok d) (hn : d.selectedNode = none) :
    assignBestNode float step nodes config now = .ok (d, step, nodes) := by
  unfold assignBestNode
  simp only [hq, hd, hn, ne_eq, not_true_eq_false, if_false]

theorem assignBestNode_some {d : SchedulerDecision} {sel : Node} (hq : step.status = .queued)
    (hd : selectNodeForStep float step nodes config now = .ok d) (hn : d.selectedNode = some sel) :
    assignBestNode float step nodes config now =
      .ok (d, step.assigned sel.id now, chargeNode step sel nodes) := by
  have hassign : assignStep step sel.id now = .ok (step.assigned sel.id now) :=
    assignStep_ok.2 ⟨hq, rfl⟩
  unfold assignBestNode
  simp only [hq, hd, hn, hassign, ne_eq, not_true_eq_false, if_false]
  rfl

theorem assignBestNode_raises {e : PyError} (hq : step.status = .queued)
    (hd : selectNodeForStep float step nodes config now = .error e) :
    assignBestNode float step nodes config now = .error (.python e) := by
  unfold assignBestNode
  simp only [hq, hd, ne_eq, not_true_eq_false, if_false]

/-- **What one iteration does**: nothing for a step that is not queued, and else
    what `select_node_for_step` decides. -/
theorem serveStep_eq (float : ℤ → Except PyError ℚ) (config : SchedulerConfig) (now : Instant)
    (nodes : List Node) (step : Step) :
    serveStep float config now nodes step =
      if step.status = .queued then
        match selectNodeForStep float step nodes config now with
        | .error e => .error (.python e)
        | .ok d => .ok (d.selectedNode.map fun sel =>
            (step.assigned sel.id now, chargeNode step sel nodes))
      else .ok none := by
  unfold serveStep
  split_ifs with hq
  · cases hd : selectNodeForStep float step nodes config now with
    | error e => rw [assignBestNode_raises hq hd]
    | ok d =>
      cases hn : d.selectedNode with
      | none => simp only [assignBestNode_none hq hd hn, hn, Option.map_none]
      | some sel => simp only [assignBestNode_some hq hd hn, hn, Option.map_some]
  · obtain ⟨t, ht⟩ := assignBestNode_not_queued float config now nodes hq
    rw [ht]

/-- **The loop of `schedule_queued_steps` is a pass.** -/
theorem scheduleLoop_eq_pass (float : ℤ → Except PyError ℚ) (config : SchedulerConfig)
    (now : Instant) (steps : List Step) : ∀ nodes,
      scheduleLoop float config now steps nodes = pass (serveStep float config now) steps nodes := by
  induction steps with
  | nil => exact fun nodes => rfl
  | cons step steps ih =>
    intro nodes
    have hmap : ∀ (s : Step) nodes, (scheduleLoop float config now steps nodes >>= fun r =>
        pure (s :: r.1, r.2) : Except SchedulerExn (List Step × List Node)) =
          (pass (serveStep float config now) steps nodes).map fun r => (s :: r.1, r.2) := by
      intro s nodes
      rw [ih nodes]
      cases pass (serveStep float config now) steps nodes <;> rfl
    by_cases hq : step.status = .queued
    · cases hd : selectNodeForStep float step nodes config now with
      | error e =>
        rw [pass_error (e := .python e) (by rw [serveStep_eq, if_pos hq, hd])]
        rw [scheduleLoop, assignBestNode_raises hq hd]
      | ok d =>
        cases hn : d.selectedNode with
        | none =>
          rw [pass_refused (by rw [serveStep_eq, if_pos hq, hd]; simp only [hn]; rfl)]
          rw [scheduleLoop, assignBestNode_none hq hd hn]
          exact hmap _ _
        | some sel =>
          rw [pass_served (by rw [serveStep_eq, if_pos hq, hd]; simp only [hn]; rfl)]
          rw [scheduleLoop, assignBestNode_some hq hd hn]
          exact hmap _ _
    · obtain ⟨t, ht⟩ := assignBestNode_not_queued float config now nodes hq
      rw [pass_refused (by rw [serveStep_eq, if_neg hq])]
      rw [scheduleLoop, ht]
      exact hmap _ _

/-! ## Assignments only raise counters -/

/-- A node after assignments. -/
structure Node.Raised (n n' : Node) : Prop where
  same : n.SameButCounters n'
  up : ∀ k, n.active k ≤ n'.active k

theorem Node.Raised.refl (n : Node) : n.Raised n := ⟨.refl n, fun _ => le_rfl⟩

theorem Node.Raised.trans {a b c : Node} (h : a.Raised b) (h' : b.Raised c) : a.Raised c :=
  ⟨h.same.trans h'.same, fun k => (h.up k).trans (h'.up k)⟩

theorem Node.raised_charge (step : Step) (n : Node) : n.Raised (n.charge step) := by
  refine ⟨n.sameButCounters_charge step, fun k => ?_⟩
  rw [Node.charge_active]
  split_ifs <;> omega

theorem Node.SameButCounters.limit_eq {n n' : Node} (h : n.SameButCounters n') (k : StepClass) :
    n'.limit k = n.limit k := by
  rw [h]
  cases k <;> rfl

theorem Node.SameButCounters.admits {n n' : Node} (h : n.SameButCounters n')
    (ha : Admits step n' config now) : Admits step n config now := by
  rw [h] at ha
  exact ⟨ha.online, ha.fresh, ha.root, ha.cpu, ha.memory, ha.disk, ha.thermal, ha.notAvoided,
    ha.battery⟩

theorem Node.Raised.hasSlot {n n' : Node} (h : n.Raised n') (hs : HasSlot step n') :
    HasSlot step n where
  whisper hw := by
    have hlimit : n'.maxWhisperJobs = n.maxWhisperJobs := h.same.limit_eq .whisper
    have hslot := hs.whisper hw
    rw [hlimit] at hslot
    exact lt_of_le_of_lt (h.up .whisper) hslot
  ffmpeg hf := by
    have hlimit : n'.maxFfmpegJobs = n.maxFfmpegJobs := h.same.limit_eq .ffmpeg
    have hslot := hs.ffmpeg hf
    rw [hlimit] at hslot
    exact lt_of_le_of_lt (h.up .ffmpeg) hslot

/-- **Eligibility is antitone in the counters.** -/
theorem Node.Raised.eligible {n n' : Node} (h : n.Raised n') (he : Eligible step n' config now) :
    Eligible step n config now := by
  rw [eligible_iff] at he ⊢
  exact ⟨h.same.admits he.1, h.hasSlot he.2⟩

/-- A filter in front of two computations that raise alike. -/
theorem raises_alike {c : Prop} [Decidable c] {x : EligibilityResult} {e : PyError}
    {rest rest' : Except PyError EligibilityResult} (h : rest' = .error e → rest = .error e) :
    (if c then .ok x else rest') = .error e → (if c then .ok x else rest) = .error e := by
  split_ifs
  · exact id
  · exact h

/-- The counters do not decide whether the eligibility raises. -/
theorem Node.SameButCounters.raises {n n' : Node} {e : PyError} (h : n.SameButCounters n')
    (he : isNodeEligible step n' config now = .error e) :
    isNodeEligible step n config now = .error e := by
  rw [h] at he
  revert he
  unfold isNodeEligible
  iterate 7 refine raises_alike ?_
  cases avoidNodes step with
  | error e' => exact fun he => he
  | ok v =>
  show (Except.bind (v.contains n.id) _ = _) → Except.bind (v.contains n.id) _ = _
  cases v.contains n.id with
  | error e' => exact fun he => he
  | ok b =>
  refine raises_alike ?_
  show (Except.bind (batteryBlocked step n config) _ = _) →
    Except.bind (batteryBlocked step n config) _ = _
  cases batteryBlocked step n config with
  | error e' => exact fun he => he
  | ok b =>
  intro he
  -- behind the readings nothing raises
  iterate 3 replace he := raises_behind he
  cases he

theorem forall₂_trans {α : Type} {R : α → α → Prop} (hR : ∀ {a b c}, R a b → R b c → R a c)
    {as bs cs : List α} (h : List.Forall₂ R as bs) (h' : List.Forall₂ R bs cs) :
    List.Forall₂ R as cs := by
  induction h generalizing cs with
  | nil => exact h'
  | cons hab _ ih =>
    cases h' with
    | cons hbc h' => exact .cons (hR hab hbc) (ih h')

theorem chargeNode_raised (step : Step) (sel : Node) (nodes : List Node) :
    List.Forall₂ Node.Raised nodes (chargeNode step sel nodes) := by
  refine List.forall₂_map_right_iff.2 (List.forall₂_same.2 fun n _ => ?_)
  split_ifs
  exacts [n.raised_charge step, .refl n]

theorem chargeNode_ids (step : Step) (sel : Node) (nodes : List Node) :
    (chargeNode step sel nodes).map Node.id = nodes.map Node.id := by
  rw [chargeNode, List.map_map]
  refine List.map_congr_left fun n _ => ?_
  rw [Function.comp]
  split_ifs <;> rfl

/-- What an assignment does; the costs of all eligible nodes were computed. -/
theorem serveStep_some (h : serveStep float config now nodes step = .ok (some (step', nodes'))) :
    step.status = .queued ∧ (∀ n ∈ nodes, Considered float step config now n) ∧
      ∃ sel ∈ nodes, Eligible step sel config now ∧
        step' = step.assigned sel.id now ∧ nodes' = chargeNode step sel nodes := by
  rw [serveStep_eq] at h
  split_ifs at h with hq
  · cases hd : selectNodeForStep float step nodes config now with
    | error e => simp only [hd] at h; cases h
    | ok d =>
      cases hn : d.selectedNode with
      | none => simp only [hd, hn] at h; cases h
      | some sel =>
        simp only [hd, hn] at h
        cases h
        obtain ⟨hmem, he⟩ := selectNodeForStep_selected hd hn
        exact ⟨hq, selectNodeForStep_isOk.1 ⟨d, hd⟩, sel, hmem, he, rfl, rfl⟩
  · cases h

/-- When a step is refused. -/
theorem serveStep_none : serveStep float config now nodes step = .ok none ↔
    (step.status = .queued → ∀ n ∈ nodes, ¬ Eligible step n config now ∧
      ∃ r, isNodeEligible step n config now = .ok r) := by
  rw [serveStep_eq]
  split_ifs with hq
  · constructor
    · intro h _ n hn
      cases hd : selectNodeForStep float step nodes config now with
      | error e => simp only [hd] at h; cases h
      | ok d =>
        simp only [hd, Except.ok.injEq, Option.map_eq_none_iff] at h
        obtain ⟨r, hr, -⟩ := selectNodeForStep_isOk.1 ⟨d, hd⟩ n hn
        exact ⟨(selectNodeForStep_none hd).1 h n hn, r, hr⟩
    · intro h
      have hall : ∀ n ∈ nodes, Considered float step config now n := fun n hn => by
        obtain ⟨hne, r, hr⟩ := h hq n hn
        exact ⟨r, hr, fun he => absurd ⟨r, hr, he⟩ hne⟩
      obtain ⟨d, hd⟩ := selectNodeForStep_isOk.2 hall
      have hn := (selectNodeForStep_none hd).2 fun n hn => (h hq n hn).1
      simp only [hd, hn, Option.map_none]
  · exact ⟨fun _ h => absurd h hq, fun _ => rfl⟩

/-- **The pass is lawful**: counters only rise, and a step refused by nodes is
    refused when their counters are higher. -/
theorem serveStep_lawful (float : ℤ → Except PyError ℚ) (config : SchedulerConfig) (now : Instant) :
    Lawful (serveStep float config now) (List.Forall₂ Node.Raised) where
  refl nodes := List.forall₂_same.2 fun n _ => .refl n
  trans h h' := forall₂_trans (fun h h' => h.trans h') h h'
  raise h := by
    obtain ⟨-, -, sel, -, -, -, rfl⟩ := serveStep_some h
    exact chargeNode_raised _ sel _
  refuse := by
    intro nodes nodes' step hle h
    rw [serveStep_none] at h ⊢
    intro hq n' hn'
    obtain ⟨n, hn, hraised⟩ := exists_of_forall₂ hle hn'
    obtain ⟨hne, r, hr⟩ := h hq n hn
    refine ⟨fun he => hne (hraised.eligible he), ?_⟩
    cases he : isNodeEligible step n' config now with
    | ok r' => exact ⟨r', rfl⟩
    | error e => cases hr.symm.trans (hraised.same.raises he)
  done h u := by
    obtain ⟨-, -, sel, -, -, rfl, -⟩ := serveStep_some h
    rw [serveStep_none]
    intro hq
    cases hq

/-! ## The pass over the whole queue -/

/-- The step is assigned to the node. -/
def Step.assignedTo (x : Step) (n : String) : Bool :=
  x.status = .assigned ∧ x.assignedNodeId = some n

/-- The counters of a node before and after assignments, `taken` of them to it. -/
structure Node.Charged (taken : ℕ) (n n' : Node) : Prop where
  within : ∀ k, n'.active k ≤ max (n.active k) (n.limit k)
  jobs : n'.activeJobs = n.activeJobs + taken

/-- A charge to a node with a free slot, before further charges. -/
theorem Node.Charged.charge {taken : ℕ} {n n' : Node} (hs : HasSlot step n)
    (h : (n.charge step).Charged taken n') : n.Charged (taken + 1) n' where
  within k := by
    have hk := h.within k
    have hslot : k.has step → n.active k < n.limit k := by
      cases k
      exacts [hs.whisper, hs.ffmpeg]
    rw [Node.charge_active, Node.charge_limit] at hk
    split_ifs at hk with hhas
    · have := hslot hhas
      omega
    · omega
  jobs := by
    have hjobs := h.jobs
    have hcharge : (n.charge step).activeJobs = n.activeJobs + 1 := rfl
    push_cast
    omega

theorem pass_charged (h : pass (serveStep float config now) steps nodes = .ok (out, nodes')) :
    (∀ s ∈ steps, s.status = .queued) → (nodes.map Node.id).Nodup →
      List.Forall₂ (fun n n' => n.Charged (out.countP (·.assignedTo n.id)) n') nodes nodes' := by
  refine pass_rec (P := fun steps nodes out nodes' => (∀ s ∈ steps, s.status = .queued) →
    (nodes.map Node.id).Nodup →
      List.Forall₂ (fun n n' => n.Charged (out.countP (·.assignedTo n.id)) n') nodes nodes')
    ?_ ?_ ?_ h
  · intro nodes _ _
    refine List.forall₂_same.2 fun n _ => ⟨fun k => le_max_left _ _, ?_⟩
    simp
  · intro step steps nodes out nodes' _ _ ih hq hnd
    refine (ih (fun s hs => hq s (List.mem_cons_of_mem _ hs)) hnd).imp fun n n' hn => ?_
    have hstep : step.assignedTo n.id = false := by
      simp [Step.assignedTo, hq step List.mem_cons_self]
    rwa [List.countP_cons_of_neg (by simp [hstep])]
  · intro step step' steps nodes mid out nodes' hs _ ih hq hnd
    obtain ⟨-, -, sel, hsel, he, rfl, rfl⟩ := serveStep_some hs
    have hrest := ih (fun s hs => hq s (List.mem_cons_of_mem _ hs))
      (by rw [chargeNode_ids]; exact hnd)
    rw [chargeNode, List.forall₂_map_left_iff] at hrest
    have hmem := (List.forall₂_and_left _ _).2 ⟨fun n (hn : n ∈ nodes) => hn, hrest⟩
    refine hmem.imp fun n n' ⟨hn, hn'⟩ => ?_
    by_cases hid : n.id = sel.id
    · -- the selected node: the only one with its id
      obtain rfl : n = sel := List.inj_on_of_nodup_map hnd hn hsel hid
      rw [if_pos rfl] at hn'
      rw [List.countP_cons_of_pos (by simp [Step.assignedTo, Step.assigned])]
      exact Node.Charged.charge (eligible_iff.1 he).2 hn'
    · rw [if_neg hid] at hn'
      have hstep : (step.assigned sel.id now).assignedTo n.id = false := by
        simp [Step.assignedTo, Step.assigned, Ne.symm hid]
      rwa [List.countP_cons_of_neg (by simp [hstep])]

/-! ## When the pass raises -/

theorem Node.SameButCounters.symm {n n' : Node} (h : n.SameButCounters n') :
    n'.SameButCounters n := by
  unfold Node.SameButCounters at *
  rw [h]

theorem Node.SameButCounters.nodePriorityBonus_eq {n n' : Node} (h : n.SameButCounters n') :
    nodePriorityBonus float n' config = nodePriorityBonus float n config := by
  rw [h]
  rfl

/-- A node whose cost could be computed can be considered with higher counters. -/
theorem Node.Raised.considered {n n' : Node} (h : n.Raised n')
    (hc : Considered float step config now n) : Considered float step config now n' := by
  obtain ⟨r, hr, hb⟩ := hc
  cases hr' : isNodeEligible step n' config now with
  | error e => cases hr.symm.trans (h.same.raises hr')
  | ok r' =>
    refine ⟨r', hr', fun he' => ?_⟩
    obtain ⟨r'', hr'', he⟩ := h.eligible ⟨r', hr', he'⟩
    cases hr.symm.trans hr''
    rw [h.same.nodePriorityBonus_eq]
    exact hb he

/-- **When a pass ends**: every node can be considered for every step, with the
    counters as they are at the start. -/
theorem pass_isOk_iff (hq : ∀ s ∈ steps, s.status = .queued) (hnd : (nodes.map Node.id).Nodup) :
    (∃ out nodes', pass (serveStep float config now) steps nodes = .ok (out, nodes')) ↔
      ∀ s ∈ steps, ∀ n ∈ nodes, Considered float s config now n := by
  constructor
  · rintro ⟨out, nodes', h⟩
    refine pass_rec (P := fun steps nodes _ _ => (∀ s ∈ steps, s.status = .queued) →
      (nodes.map Node.id).Nodup → ∀ s ∈ steps, ∀ n ∈ nodes, Considered float s config now n)
      ?_ ?_ ?_ h hq hnd
    · intro nodes _ _ s hs
      cases hs
    · intro step steps nodes out nodes' hserve _ ih hq hnd s hs n hn
      rcases List.mem_cons.1 hs with rfl | hs
      · obtain ⟨hne, r, hr⟩ := serveStep_none.1 hserve (hq s List.mem_cons_self) n hn
        exact ⟨r, hr, fun he => absurd ⟨r, hr, he⟩ hne⟩
      · exact ih (fun s hs => hq s (List.mem_cons_of_mem _ hs)) hnd s hs n hn
    · intro step step' steps nodes mid out nodes' hserve _ ih hq hnd s hs n hn
      obtain ⟨-, hall, sel, hsel, he, rfl, rfl⟩ := serveStep_some hserve
      rcases List.mem_cons.1 hs with rfl | hs
      · exact hall n hn
      have hrest := ih (fun s hs => hq s (List.mem_cons_of_mem _ hs))
        (by rw [chargeNode_ids]; exact hnd) s hs
      by_cases hid : n.id = sel.id
      · -- the charged node: its cost was computed, and the counters raise nothing
        obtain rfl : n = sel := List.inj_on_of_nodup_map hnd hn hsel hid
        obtain ⟨r, hr, -⟩ := hrest (n.charge step)
          (List.mem_map.2 ⟨n, hn, by rw [if_pos rfl]⟩)
        obtain ⟨r', hr', hb⟩ := hall n hn
        obtain ⟨r'', hr'', he''⟩ := he
        cases hr'.symm.trans hr''
        cases hc : isNodeEligible s n config now with
        | ok r => exact ⟨r, hc, fun _ => hb he''⟩
        | error e => cases hr.symm.trans ((n.sameButCounters_charge step).symm.raises hc)
      · exact hrest n (List.mem_map.2 ⟨n, hn, by rw [if_neg hid]⟩)
  · intro hall
    refine (serveStep_lawful float config now).pass_total fun s hs mid hle => ?_
    obtain ⟨d, hd⟩ := selectNodeForStep_isOk.2 fun n' hn' => by
      obtain ⟨n, hn, hraised⟩ := exists_of_forall₂ hle hn'
      exact hraised.considered (hall s hs n hn)
    rw [serveStep_eq]
    split_ifs
    · exact ⟨_, by rw [hd]⟩
    · exact ⟨_, rfl⟩

/-- The priority that is configured for a node: under its id, or else its host. -/
def nodePriority (n : Node) (config : SchedulerConfig) : ℤ :=
  ((config.nodePriorities.lookup n.id).or
    ((n.host.filter (· ≠ "")).bind fun host => config.nodePriorities.lookup host)).getD 0

/-- A node has a configured priority, or 0. -/
theorem nodePriority_ind {P : ℤ → Prop} (hzero : P 0)
    (h : ∀ kv ∈ config.nodePriorities, P kv.2) (n : Node) : P (nodePriority n config) := by
  have hlookup : ∀ {key p}, config.nodePriorities.lookup key = some p → P p := fun hp => by
    obtain ⟨before, after, heq, -⟩ := List.lookup_eq_some_iff.1 hp
    exact h _ (heq ▸ List.mem_append_right _ List.mem_cons_self)
  unfold nodePriority
  cases hid : config.nodePriorities.lookup n.id with
  | some p => exact hlookup hid
  | none =>
    cases hhost : n.host.filter (· ≠ "") with
    | none => exact hzero
    | some host =>
      cases hp : config.nodePriorities.lookup host with
      | none => simpa [hp] using hzero
      | some p => simpa [hp] using hlookup hp

/-- A node has the priority under its id, or else under its host. -/
theorem nodePriorityBonus_eq (hzero : float 0 = .ok 0) (n : Node) (config : SchedulerConfig) :
    nodePriorityBonus float n config = float (nodePriority n config) := by
  unfold nodePriorityBonus nodePriority
  cases hid : config.nodePriorities.lookup n.id with
  | some p => rfl
  | none =>
    cases hhost : n.host with
    | none => simp [hzero]
    | some host =>
      by_cases hempty : host = ""
      · simp [hempty, Option.filter, hzero]
      · cases hp : config.nodePriorities.lookup host <;> simp [hempty, hp, Option.filter, hzero]

/-- **Which priorities `float()` takes.** -/
theorem priorityFloat_isOk {p : ℤ} :
    (∃ x, priorityFloat p = .ok x) ↔ |p| < 2 ^ 1024 - 2 ^ 970 := by
  have hcast : (|p| < 2 ^ 1024 - 2 ^ 970) ↔ ¬ ((2 : ℚ) ^ 1024 - 2 ^ 970 ≤ |(p : ℚ)|) := by
    rw [not_le]
    exact_mod_cast Iff.rfl
  rw [hcast, ← Binary64.ofRat_eq_none, priorityFloat, floatOfInt]
  cases Binary64.ofRat (p : ℚ) <;> simp [Except.map]

/-- When a node can be considered for a step. -/
theorem considered_priorityFloat (hwt : step.WellTyped) (n : Node) :
    Considered priorityFloat step config now n ↔
      (Eligible step n config now → |nodePriority n config| < 2 ^ 1024 - 2 ^ 970) ∧
      (ReadsRuntime step n config now → estimatedRuntimeMinutes step ≠ .error .overflowError) := by
  have hzero : priorityFloat 0 = .ok 0 := by
    have : Binary64.ofRat ((0 : ℤ) : ℚ) = some 0 := by decide +kernel
    rw [priorityFloat, floatOfInt, this]
    rfl
  rw [← priorityFloat_isOk, ← nodePriorityBonus_eq hzero]
  constructor
  · rintro ⟨r, hr, hb⟩
    refine ⟨?_, fun hreads hover => ?_⟩
    · rintro ⟨r', hr', he⟩
      cases hr.symm.trans hr'
      exact hb he
    · cases hr.symm.trans (hwt.isNodeEligible_error_iff.2 ⟨rfl, hreads, hover⟩)
  · rintro ⟨hb, hruntime⟩
    cases hr : isNodeEligible step n config now with
    | ok r => exact ⟨r, hr, fun he => hb ⟨r, hr, he⟩⟩
    | error e =>
      obtain ⟨-, hreads, hover⟩ := hwt.isNodeEligible_error_iff.1 hr
      exact absurd hover (hruntime hreads)

/-! ## What a pass is to do -/

/-- **A sound, capacity-respecting, maximal and idempotent pass.**  A step it assigns
    is assigned, under the next epoch, to a node that was eligible with the counters
    as the steps before left them; any other step is unchanged and has no eligible
    node even at the end; the nodes keep to their limits and differ in their
    counters only, one job for each step assigned to them; and a second pass changes
    nothing. -/
structure Scheduled (config : SchedulerConfig) (now : Instant) (steps : List Step)
    (nodes : List Node) (out : List Step) (nodes' : List Node) : Prop where
  length : out.length = steps.length
  steps : ∀ i s s', steps[i]? = some s → out[i]? = some s' →
    (s'.status = .assigned → ∃ before mid,
      scheduleLoop priorityFloat config now (steps.take i) nodes = .ok (before, mid) ∧
        ∃ n ∈ mid, Eligible s n config now ∧ s' = s.assigned n.id now) ∧
    (s'.status ≠ .assigned → s' = s ∧ ∀ n ∈ nodes',
      ∃ r, isNodeEligible s n config now = .ok r ∧ r.eligible = false)
  nodes : List.Forall₂ (fun n n' : Node => n.SameButCounters n' ∧
    n'.activeWhisperJobs ≤ max n.activeWhisperJobs n.maxWhisperJobs ∧
    n'.activeFfmpegJobs ≤ max n.activeFfmpegJobs n.maxFfmpegJobs ∧
    n'.activeJobs = n.activeJobs + out.countP (·.assignedTo n.id)) nodes nodes'
  again : scheduleLoop priorityFloat config now out nodes' = .ok (out, nodes')
  againQueued : scheduleLoop priorityFloat config now (out.filter fun s => s.status = .queued)
    nodes' = .ok (out.filter fun s => s.status = .queued, nodes')

/-- A pass that ends has done what it is to do. -/
theorem scheduled_of_ok (hq : ∀ s ∈ steps, s.status = .queued) (hnd : (nodes.map Node.id).Nodup)
    (h : scheduleLoop priorityFloat config now steps nodes = .ok (out, nodes')) :
    Scheduled config now steps nodes out nodes' := by
  have hlaw := serveStep_lawful priorityFloat config now
  rw [scheduleLoop_eq_pass] at h
  refine ⟨pass_length h, ?_, ?_, ?_, ?_⟩
  · intro i s s' hs hs'
    have hsq := hq s (List.mem_of_getElem? hs)
    rcases hlaw.pass_spec h i s s' hs hs' with ⟨before, mid, t, hb, ht, -, -⟩ | ⟨rfl, hr⟩
    · obtain ⟨-, -, sel, hsel, he, rfl, rfl⟩ := serveStep_some ht
      rw [← scheduleLoop_eq_pass] at hb
      exact ⟨fun _ => ⟨before, mid, hb, sel, hsel, he, rfl⟩, fun hne => absurd rfl hne⟩
    · refine ⟨fun ha => ?_, fun _ => ⟨rfl, fun n hn => ?_⟩⟩
      · rw [hsq] at ha
        cases ha
      · obtain ⟨hne, r, hr⟩ := serveStep_none.1 hr hsq n hn
        exact ⟨r, hr, Bool.eq_false_iff.2 fun he => hne ⟨r, hr, he⟩⟩
  · have hsame := hlaw.pass_le h
    have hcharged := pass_charged h hq hnd
    refine (List.Forall₂.mp (fun n n' hr hc => ?_) hsame hcharged)
    exact ⟨hr.same, hc.within .whisper, hc.within .ffmpeg, hc.jobs⟩
  · rw [scheduleLoop_eq_pass]
    exact hlaw.pass_again h (List.Subset.refl _)
  · rw [scheduleLoop_eq_pass]
    exact hlaw.pass_again h (List.filter_subset_self _)

/-- **The scheduling pass** does what it is to do if and only if nothing overflows: no
    step is eligible at the start on a node whose priority is too large for a float,
    and none whose estimated runtime is so has it read for a node. -/
theorem scheduling_pass (config : SchedulerConfig) (now : Instant) {steps : List Step}
    {nodes : List Node} (hq : ∀ s ∈ steps, s.status = .queued) (hwt : ∀ s ∈ steps, s.WellTyped)
    (hnd : (nodes.map Node.id).Nodup) :
    (∃ out nodes', scheduleLoop priorityFloat config now steps nodes = .ok (out, nodes') ∧
      Scheduled config now steps nodes out nodes') ↔
    ∀ s ∈ steps, ∀ n ∈ nodes,
      (Eligible s n config now → |nodePriority n config| < 2 ^ 1024 - 2 ^ 970) ∧
      (ReadsRuntime s n config now → estimatedRuntimeMinutes s ≠ .error .overflowError) := by
  have hcond : (∀ s ∈ steps, ∀ n ∈ nodes, Considered priorityFloat s config now n) ↔
      ∀ s ∈ steps, ∀ n ∈ nodes,
        (Eligible s n config now → |nodePriority n config| < 2 ^ 1024 - 2 ^ 970) ∧
        (ReadsRuntime s n config now → estimatedRuntimeMinutes s ≠ .error .overflowError) :=
    forall₂_congr fun s hs => forall₂_congr fun n _ => considered_priorityFloat (hwt s hs) n
  rw [← hcond, ← pass_isOk_iff hq hnd]
  simp only [← scheduleLoop_eq_pass]
  exact ⟨fun ⟨out, nodes', h, _⟩ => ⟨out, nodes', h⟩,
    fun ⟨out, nodes', h⟩ => ⟨out, nodes', h, scheduled_of_ok hq hnd h⟩⟩

/-- An idle node, heard from at second 0. -/
def sampleReady : Node := { sampleNode with lastHeartbeatAt := some 0, freeDiskGb := 100 }

theorem sampleStep_wellFormed (toolName id : String) : (sampleStep toolName id).WellFormed where
  constraints v hv := by cases hv
  runtime v hv := by cases hv

/-- One of two Whisper steps is assigned, and a second pass leaves the other. -/
theorem scheduling_pass_sample :
    let steps := [sampleStep "whisper" "step_a", sampleStep "whisper" "step_b"]
    ∃ out nodes',
      scheduleLoop priorityFloat sampleApp.schedulerConfig 1 steps [sampleReady] =
        .ok (out, nodes') ∧
      out.map Step.status = [.assigned, .queued] ∧
      scheduleLoop priorityFloat sampleApp.schedulerConfig 1 out nodes' = .ok (out, nodes') := by
  intro steps
  have hsteps : ∀ s ∈ steps, s.status = .queued ∧ s.WellFormed := by
    intro s hs
    simp only [steps, List.mem_cons, List.not_mem_nil, or_false] at hs
    rcases hs with rfl | rfl <;> exact ⟨rfl, sampleStep_wellFormed _ _⟩
  have hcond : ∀ s ∈ steps, ∀ n ∈ [sampleReady],
      (Eligible s n sampleApp.schedulerConfig 1 →
        |nodePriority n sampleApp.schedulerConfig| < 2 ^ 1024 - 2 ^ 970) ∧
      (ReadsRuntime s n sampleApp.schedulerConfig 1 →
        estimatedRuntimeMinutes s ≠ .error .overflowError) := by
    intro s hs n hn
    obtain rfl := List.mem_singleton.1 hn
    refine ⟨fun _ => by decide +kernel, fun _ => ?_⟩
    obtain ⟨x, hx⟩ := (hsteps s hs).2.estimatedRuntimeMinutes_ok
    rw [hx]
    simp
  obtain ⟨out, nodes', h, hdone⟩ := (scheduling_pass sampleApp.schedulerConfig 1
    (fun s hs => (hsteps s hs).1) (fun s hs => (hsteps s hs).2.wellTyped)
    (show ([sampleReady].map Node.id).Nodup from List.nodup_singleton _)).2 hcond
  refine ⟨out, nodes', h, ?_, hdone.again⟩
  have hstatus : (scheduleLoop priorityFloat sampleApp.schedulerConfig 1 steps
      [sampleReady]).toOption.map (fun r => r.1.map Step.status) =
        some [.assigned, .queued] := by decide +kernel
  rw [h] at hstatus
  exact Option.some.inj hstatus

/-- A priority of 400 digits ends the pass with an exception. -/
theorem scheduling_pass_raises : ¬ ∀ (config : SchedulerConfig) (now : Instant) (steps : List Step)
    (nodes : List Node), (∀ s ∈ steps, s.status = .queued) → (∀ s ∈ steps, s.WellFormed) →
    (nodes.map Node.id).Nodup →
    ∃ out nodes', scheduleLoop priorityFloat config now steps nodes = .ok (out, nodes') ∧
      Scheduled config now steps nodes out nodes' := by
  intro h
  obtain ⟨out, nodes', hpass, -⟩ := h
    { sampleApp.schedulerConfig with nodePriorities := [(sampleReady.id, 10 ^ 400)] } 1
    [sampleStep "whisper" "step_a"] [sampleReady]
    (fun s hs => by obtain rfl := List.mem_singleton.1 hs; rfl)
    (fun s hs => by obtain rfl := List.mem_singleton.1 hs; exact sampleStep_wellFormed _ _)
    (List.nodup_singleton _)
  have hraises : (scheduleLoop priorityFloat
      { sampleApp.schedulerConfig with nodePriorities := [(sampleReady.id, 10 ^ 400)] } 1
      [sampleStep "whisper" "step_a"] [sampleReady]).toOption.isSome = false := by decide +kernel
  rw [hpass] at hraises
  cases hraises

end MediaOrchard
