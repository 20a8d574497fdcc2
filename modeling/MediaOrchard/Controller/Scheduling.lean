/-
  Scoring and assignment (`controller/scheduler/scoring.py`,
  `controller/scheduler/loop.py`, and the loop of `schedule_queued_steps`).

  Python mutates the step and the selected node; here `assignBestNode` returns
  them, and `scheduleLoop` threads the nodes through the queue, so that a later
  step sees the counters charged for the earlier ones.

  * `selectNodeForStep_ok`: the least candidate is selected, the candidates being
    the eligible nodes;
  * `scheduleLoop_nodes`: a pass keeps the nodes and changes only their counters;
  * `scheduleLoop_steps`: it leaves each step alone or assigns it, raising its
    epoch, to one of the nodes.
-/
import MediaOrchard.Controller.Policies
import MediaOrchard.Controller.StateMachine
import Mathlib.Data.List.Sort

namespace MediaOrchard

/-! ## Scoring -/

/-- `NodeCost` -/
structure NodeCost where
  total : ℚ
  components : List (String × ℚ)

/-- `SchedulerDecision` -/
structure SchedulerDecision where
  selectedNode : Option Node
  rejectedNodes : List (String × String)
  scoreBreakdown : List (String × List (String × ℚ))
  reason : String

/-- `same_type_active_jobs`; a counter is a 64-bit column, which `float()` takes. -/
def sameTypeActiveJobs (step : Step) (node : Node) : ℚ :=
  if isWhisperStep step then node.activeWhisperJobs
  else if isFfmpegStep step then node.activeFfmpegJobs
  else node.activeJobs

/-- `thermal_penalty` -/
def thermalPenalty (node : Node) : ℚ :=
  (List.lookup node.thermalState
    [("normal", 0), ("fair", 20), ("serious", 100), ("critical", 100)]).getD 10

/-- `float(p)` of a priority: it raises as `float()` does, and its value is exact
    like the rest of a cost. -/
def priorityFloat (p : ℤ) : Except PyError ℚ := (floatOfInt p).map fun _ => p

/-- A priority in exact arithmetic. -/
def exactFloat (p : ℤ) : Except PyError ℚ := .ok p

variable (float : ℤ → Except PyError ℚ)

/-- `node_priority_bonus` -/
def nodePriorityBonus (node : Node) (config : SchedulerConfig) : Except PyError ℚ :=
  match config.nodePriorities.lookup node.id with
  | some p => float p
  | none =>
    match node.host with
    | some host =>
      if host = "" then .ok 0
      else match config.nodePriorities.lookup host with
        | some p => float p
        | none => .ok 0
    | none => .ok 0

/-- `calculate_node_cost` -/
def calculateNodeCost (step : Step) (node : Node) (config : SchedulerConfig) :
    Except PyError NodeCost := do
  let cpuLoad : ℚ := 3 / 10 * node.cpuPercent
  let memoryPressure : ℚ := 2 / 10 * node.memoryPercent
  let activeSameTypeJobs : ℚ := 15 / 100 * sameTypeActiveJobs step node
  let thermal : ℚ := 1 / 10 * thermalPenalty node
  let diskIoPenalty : ℚ := 0
  let recentUsagePenalty : ℚ := 0
  let fileLocalityBonus : ℚ := 0
  let benchmarkSpeedBonus : ℚ := 0
  let priorityBonus ← nodePriorityBonus float node config
  let total := cpuLoad + memoryPressure + activeSameTypeJobs + thermal + diskIoPenalty +
    recentUsagePenalty - fileLocalityBonus - benchmarkSpeedBonus - priorityBonus
  return {
    total := total
    components := [("cpu_load", cpuLoad), ("memory_pressure", memoryPressure),
      ("active_same_type_jobs", activeSameTypeJobs), ("thermal_penalty", thermal),
      ("disk_io_penalty", diskIoPenalty), ("recent_usage_penalty", recentUsagePenalty),
      ("file_locality_bonus", fileLocalityBonus),
      ("benchmark_speed_bonus", benchmarkSpeedBonus), ("priority_bonus", priorityBonus),
      ("total", total)] }

/-- The accumulators of `select_node_for_step`. -/
structure Candidates where
  rejected : List (String × String) := []
  scores : List (String × List (String × ℚ)) := []
  candidates : List (ℚ × Node) := []

/-- The loop body of `select_node_for_step`. -/
def considerNode (step : Step) (config : SchedulerConfig) (now : Instant) (acc : Candidates)
    (node : Node) : Except PyError Candidates := do
  let eligibility ← isNodeEligible step node config now
  if eligibility.eligible then
    let cost ← calculateNodeCost float step node config
    return { acc with
      scores := dictSet acc.scores node.id cost.components
      candidates := acc.candidates ++ [(cost.total, node)] }
  else return { acc with rejected := dictSet acc.rejected node.id eligibility.reason }

/-- The sort key `(item[0], item[1].id)`. -/
def candidateLe (a b : ℚ × Node) : Prop := a.1 < b.1 ∨ a.1 = b.1 ∧ a.2.id ≤ b.2.id

instance : DecidableRel candidateLe := fun a b =>
  inferInstanceAs (Decidable (a.1 < b.1 ∨ a.1 = b.1 ∧ a.2.id ≤ b.2.id))

/-- `select_node_for_step` -/
def selectNodeForStep (step : Step) (nodes : List Node) (config : SchedulerConfig)
    (now : Instant) : Except PyError SchedulerDecision := do
  let acc ← nodes.foldlM (considerNode float step config now) {}
  match (acc.candidates.insertionSort candidateLe).head? with
  | none => return ⟨none, acc.rejected, acc.scores, "no_eligible_nodes"⟩
  | some (_, selected) =>
    return ⟨some selected, acc.rejected, acc.scores, "selected:" ++ selected.id⟩

/-! ## Which node is selected -/

variable {float}

/-- The loop body raises nothing for the node: it is rejected, or its cost computed. -/
def Considered (float : ℤ → Except PyError ℚ) (step : Step) (config : SchedulerConfig)
    (now : Instant) (node : Node) : Prop :=
  ∃ r, isNodeEligible step node config now = .ok r ∧
    (r.eligible → ∃ b, nodePriorityBonus float node config = .ok b)

theorem calculateNodeCost_error (step : Step) {node : Node} {config : SchedulerConfig}
    {e : PyError} : calculateNodeCost float step node config = .error e ↔
      nodePriorityBonus float node config = .error e := by
  unfold calculateNodeCost
  cases nodePriorityBonus float node config <;> simp [bind, Except.bind, pure, Except.pure]

theorem calculateNodeCost_isOk {step : Step} {node : Node} {config : SchedulerConfig} :
    (∃ cost, calculateNodeCost float step node config = .ok cost) ↔
      ∃ b, nodePriorityBonus float node config = .ok b := by
  unfold calculateNodeCost
  cases nodePriorityBonus float node config <;> simp [bind, Except.bind, pure, Except.pure]

/-- One iteration of `select_node_for_step`: the node is a candidate if it is
    eligible, and else rejected. -/
theorem considerNode_ok {step : Step} {config : SchedulerConfig} {now : Instant}
    {acc acc' : Candidates} {n : Node} (h : considerNode float step config now acc n = .ok acc') :
    (Eligible step n config now ∧ ∃ cost, calculateNodeCost float step n config = .ok cost ∧
        acc' = { acc with
          scores := dictSet acc.scores n.id cost.components
          candidates := acc.candidates ++ [(cost.total, n)] }) ∨
      (¬ Eligible step n config now ∧ ∃ reason, acc' = { acc with
        rejected := dictSet acc.rejected n.id reason }) := by
  unfold considerNode at h
  cases hr : isNodeEligible step n config now with
  | error e => rw [hr] at h; cases h
  | ok r =>
    simp only [hr, bind, Except.bind, pure, Except.pure] at h
    split_ifs at h with he
    · cases hcost : calculateNodeCost float step n config with
      | error e => simp only [hcost] at h; cases h
      | ok cost =>
        simp only [hcost] at h
        cases h
        exact Or.inl ⟨⟨r, hr, he⟩, cost, rfl, rfl⟩
    · cases h
      refine Or.inr ⟨?_, r.reason, rfl⟩
      rintro ⟨r', hr', he'⟩
      cases hr.symm.trans hr'
      exact he he'

/-- What an iteration raises is raised by the eligibility or by the cost. -/
theorem considerNode_error {step : Step} {config : SchedulerConfig} {now : Instant}
    {acc : Candidates} {n : Node} {e : PyError} :
    considerNode float step config now acc n = .error e ↔
      isNodeEligible step n config now = .error e ∨
        Eligible step n config now ∧ nodePriorityBonus float n config = .error e := by
  unfold considerNode Eligible
  cases hr : isNodeEligible step n config now with
  | error e' => simp [bind, Except.bind]
  | ok r =>
    simp only [bind, Except.bind, pure, Except.pure]
    split_ifs with he
    · rw [← calculateNodeCost_error step]
      cases calculateNodeCost float step n config <;> simp [he]
    · simp [he]

theorem considered_iff {step : Step} {config : SchedulerConfig} {now : Instant} {n : Node} :
    Considered float step config now n ↔
      ∀ acc e, considerNode float step config now acc n ≠ .error e := by
  constructor
  · rintro ⟨r, hr, hb⟩ acc e h
    rcases considerNode_error.1 h with he | ⟨⟨r', hr', he'⟩, he⟩
    · cases hr.symm.trans he
    · cases hr.symm.trans hr'
      obtain ⟨b, hb⟩ := hb he'
      cases hb.symm.trans he
  · intro h
    cases hr : isNodeEligible step n config now with
    | error e => exact absurd (considerNode_error.2 (Or.inl hr)) (h {} e)
    | ok r =>
      refine ⟨r, hr, fun he => ?_⟩
      cases hb : nodePriorityBonus float n config with
      | ok b => exact ⟨b, rfl⟩
      | error e => exact absurd (considerNode_error.2 (Or.inr ⟨⟨r, hr, he⟩, hb⟩)) (h {} e)

/-- The candidates are the eligible nodes of the list, with their costs. -/
theorem foldlM_considerNode {step : Step} {config : SchedulerConfig} {now : Instant}
    {nodes : List Node} {acc acc' : Candidates}
    (h : nodes.foldlM (considerNode float step config now) acc = .ok acc') (c : ℚ × Node) :
    c ∈ acc'.candidates ↔ c ∈ acc.candidates ∨
      c.2 ∈ nodes ∧ Eligible step c.2 config now ∧
        ∃ cost, calculateNodeCost float step c.2 config = .ok cost ∧ c.1 = cost.total := by
  induction nodes generalizing acc with
  | nil =>
    cases h
    simp
  | cons n nodes ih =>
    rw [List.foldlM_cons] at h
    obtain ⟨mid, hn, h⟩ := bind_ok h
    rw [ih h, List.mem_cons]
    rcases considerNode_ok hn with ⟨he, cost, hcost, rfl⟩ | ⟨he, reason, rfl⟩
    · constructor
      · rintro (hc | ⟨hc, hrest⟩)
        · rcases List.mem_append.1 hc with hc | hc
          · exact Or.inl hc
          · rw [List.mem_singleton.1 hc]
            exact Or.inr ⟨Or.inl rfl, he, cost, hcost, rfl⟩
        · exact Or.inr ⟨Or.inr hc, hrest⟩
      · rintro (hc | ⟨hc | hc, hrest⟩)
        · exact Or.inl (List.mem_append_left _ hc)
        · refine Or.inl (List.mem_append_right _ (List.mem_singleton.2 ?_))
          obtain ⟨-, cost', hcost', htotal⟩ := hrest
          rw [hc] at hcost'
          cases hcost.symm.trans hcost'
          exact Prod.ext htotal hc
        · exact Or.inr ⟨hc, hrest⟩
    · constructor
      · rintro (hc | ⟨hc, hrest⟩)
        · exact Or.inl hc
        · exact Or.inr ⟨Or.inr hc, hrest⟩
      · rintro (hc | ⟨rfl | hc, hrest⟩)
        · exact Or.inl hc
        · exact absurd hrest.1 he
        · exact Or.inr ⟨hc, hrest⟩

/-- An exception of the loop is that of a node. -/
theorem foldlM_considerNode_error {step : Step} {config : SchedulerConfig} {now : Instant}
    {nodes : List Node} {acc : Candidates} {e : PyError}
    (h : nodes.foldlM (considerNode float step config now) acc = .error e) :
    ∃ n ∈ nodes, ∃ acc, considerNode float step config now acc n = .error e := by
  induction nodes generalizing acc with
  | nil => cases h
  | cons n nodes ih =>
    rw [List.foldlM_cons] at h
    cases hn : considerNode float step config now acc n with
    | error e' =>
      rw [hn] at h
      cases h
      exact ⟨n, List.mem_cons_self, acc, hn⟩
    | ok mid =>
      rw [hn] at h
      obtain ⟨m, hm, he⟩ := ih h
      exact ⟨m, List.mem_cons_of_mem _ hm, he⟩

/-- The loop ends only if no node raises. -/
theorem foldlM_considerNode_all {step : Step} {config : SchedulerConfig} {now : Instant}
    {nodes : List Node} {acc acc' : Candidates}
    (h : nodes.foldlM (considerNode float step config now) acc = .ok acc') :
    ∀ n ∈ nodes, Considered float step config now n := by
  induction nodes generalizing acc with
  | nil => exact fun n hn => absurd hn List.not_mem_nil
  | cons n nodes ih =>
    rw [List.foldlM_cons] at h
    obtain ⟨mid, hn, h⟩ := bind_ok h
    intro m hm
    rcases List.mem_cons.1 hm with rfl | hm
    · refine considered_iff.2 fun acc' e he => ?_
      rw [considerNode_error.2 (considerNode_error.1 he)] at hn
      cases hn
    · exact ih h m hm

instance : IsTrans (ℚ × Node) candidateLe where
  trans a b c := by
    rintro (hab | ⟨hab, hid⟩) (hbc | ⟨hbc, hid'⟩)
    · exact Or.inl (hab.trans hbc)
    · exact Or.inl (hbc ▸ hab)
    · exact Or.inl (hab ▸ hbc)
    · exact Or.inr ⟨hab.trans hbc, String.le_trans hid hid'⟩

instance : Std.Total candidateLe where
  total a b := by
    rcases lt_trichotomy a.1 b.1 with h | h | h
    · exact Or.inl (Or.inl h)
    · rcases String.le_total a.2.id b.2.id with hid | hid
      · exact Or.inl (Or.inr ⟨h, hid⟩)
      · exact Or.inr (Or.inr ⟨h.symm, hid⟩)
    · exact Or.inr (Or.inl h)

/-- The first candidate of the sorted list is least. -/
theorem head?_insertionSort {l : List (ℚ × Node)} {c : ℚ × Node}
    (h : (l.insertionSort candidateLe).head? = some c) : c ∈ l ∧ ∀ c' ∈ l, candidateLe c c' := by
  have hc : c ∈ l := (List.mem_insertionSort candidateLe).1 (List.mem_of_head? h)
  refine ⟨hc, fun c' hc' => ?_⟩
  have hsorted := List.pairwise_insertionSort candidateLe l
  have hmem : c' ∈ l.insertionSort candidateLe := (List.mem_insertionSort candidateLe).2 hc'
  cases hl : l.insertionSort candidateLe with
  | nil => rw [hl] at h; cases h
  | cons a rest =>
    rw [hl] at h hsorted hmem
    cases h
    rcases List.mem_cons.1 hmem with rfl | hmem
    · exact (Std.Total.total c' c').elim id id
    · exact List.rel_of_pairwise_cons hsorted hmem

/-- What `select_node_for_step` returns: the least candidate, if there is one. -/
theorem selectNodeForStep_ok {step : Step} {nodes : List Node} {config : SchedulerConfig}
    {now : Instant} {d : SchedulerDecision}
    (h : selectNodeForStep float step nodes config now = .ok d) :
    ∃ acc, nodes.foldlM (considerNode float step config now) {} = .ok acc ∧
      d.rejectedNodes = acc.rejected ∧ d.scoreBreakdown = acc.scores ∧
      ((d.selectedNode = none ∧ acc.candidates = []) ∨
        ∃ c ∈ acc.candidates, d.selectedNode = some c.2 ∧
          ∀ c' ∈ acc.candidates, candidateLe c c') := by
  unfold selectNodeForStep at h
  cases hf : nodes.foldlM (considerNode float step config now) {} with
  | error e => rw [hf] at h; cases h
  | ok acc =>
    refine ⟨acc, rfl, ?_⟩
    rw [hf] at h
    simp only [bind, Except.bind] at h
    cases hh : (acc.candidates.insertionSort candidateLe).head? with
    | none =>
      rw [hh] at h
      cases h
      rw [List.head?_eq_none_iff] at hh
      have hlen := List.length_insertionSort candidateLe acc.candidates
      rw [hh] at hlen
      exact ⟨rfl, rfl, Or.inl ⟨rfl, List.eq_nil_of_length_eq_zero hlen.symm⟩⟩
    | some c =>
      rw [hh] at h
      cases h
      obtain ⟨hc, hle⟩ := head?_insertionSort hh
      exact ⟨rfl, rfl, Or.inr ⟨c, hc, rfl, hle⟩⟩

/-- `select_node_for_step` raises what a node raises. -/
theorem selectNodeForStep_error {step : Step} {nodes : List Node} {config : SchedulerConfig}
    {now : Instant} {e : PyError} (h : selectNodeForStep float step nodes config now = .error e) :
    ∃ n ∈ nodes, isNodeEligible step n config now = .error e ∨
      Eligible step n config now ∧ nodePriorityBonus float n config = .error e := by
  unfold selectNodeForStep at h
  cases hf : nodes.foldlM (considerNode float step config now) {} with
  | error e' =>
    rw [hf] at h
    cases h
    obtain ⟨n, hn, acc, he⟩ := foldlM_considerNode_error hf
    exact ⟨n, hn, considerNode_error.1 he⟩
  | ok acc =>
    rw [hf] at h
    simp only [bind, Except.bind] at h
    cases hh : (acc.candidates.insertionSort candidateLe).head? <;> rw [hh] at h <;> cases h

theorem selectNodeForStep_isOk {step : Step} {nodes : List Node} {config : SchedulerConfig}
    {now : Instant} : (∃ d, selectNodeForStep float step nodes config now = .ok d) ↔
      ∀ n ∈ nodes, Considered float step config now n := by
  constructor
  · rintro ⟨d, hd⟩
    obtain ⟨acc, hf, -⟩ := selectNodeForStep_ok hd
    exact foldlM_considerNode_all hf
  · intro hall
    cases hd : selectNodeForStep float step nodes config now with
    | ok d => exact ⟨d, rfl⟩
    | error e =>
      obtain ⟨n, hn, he⟩ := selectNodeForStep_error hd
      exact absurd (considerNode_error.2 he) (considered_iff.1 (hall n hn) {} e)

/-- **The selected node is an eligible node of the list.** -/
theorem selectNodeForStep_selected {step : Step} {nodes : List Node} {config : SchedulerConfig}
    {now : Instant} {d : SchedulerDecision} {n : Node}
    (h : selectNodeForStep float step nodes config now = .ok d) (hn : d.selectedNode = some n) :
    n ∈ nodes ∧ Eligible step n config now := by
  obtain ⟨acc, hf, -, -, ⟨hnone, -⟩ | ⟨c, hc, hsel, -⟩⟩ := selectNodeForStep_ok h
  · cases hn.symm.trans hnone
  · cases hn.symm.trans hsel
    rcases (foldlM_considerNode hf c).1 hc with hc | ⟨hmem, he, -⟩
    · cases hc
    · exact ⟨hmem, he⟩

/-- **No node is selected iff none is eligible.** -/
theorem selectNodeForStep_none {step : Step} {nodes : List Node} {config : SchedulerConfig}
    {now : Instant} {d : SchedulerDecision}
    (h : selectNodeForStep float step nodes config now = .ok d) :
    d.selectedNode = none ↔ ∀ n ∈ nodes, ¬ Eligible step n config now := by
  constructor
  · intro hnone n hn he
    obtain ⟨acc, hf, -, -, ⟨-, hnil⟩ | ⟨c, -, hsel, -⟩⟩ := selectNodeForStep_ok h
    · obtain ⟨r, hr, hb⟩ := foldlM_considerNode_all hf n hn
      obtain ⟨r', hr', he'⟩ := he
      cases hr.symm.trans hr'
      obtain ⟨cost, hcost⟩ := calculateNodeCost_isOk.2 (hb he')
      have hmem := (foldlM_considerNode hf (cost.total, n)).2
        (Or.inr ⟨hn, ⟨r, hr, he'⟩, cost, hcost, rfl⟩)
      rw [hnil] at hmem
      cases hmem
    · cases hnone.symm.trans hsel
  · intro hall
    cases hsel : d.selectedNode with
    | none => rfl
    | some n =>
      obtain ⟨hn, he⟩ := selectNodeForStep_selected h hsel
      exact absurd he (hall n hn)

/-! ## Assignment -/

/-- The exceptions of a scheduling pass; the loop catches `SchedulerError`. -/
inductive SchedulerExn where
  | schedulerError (detail : String)
  | transitionError (e : TransitionError)
  | python (e : PyError)

/-- The counters of a node charged with a step. -/
def Node.charge (step : Step) (node : Node) : Node :=
  { node with
    activeJobs := node.activeJobs + 1
    activeWhisperJobs :=
      if isWhisperStep step then node.activeWhisperJobs + 1 else node.activeWhisperJobs
    activeFfmpegJobs :=
      if isWhisperStep step then node.activeFfmpegJobs
      else if isFfmpegStep step then node.activeFfmpegJobs + 1 else node.activeFfmpegJobs }

variable (float) in
/-- `assign_best_node`, with the step and the nodes as it leaves them. -/
def assignBestNode (step : Step) (nodes : List Node) (config : SchedulerConfig) (now : Instant) :
    Except SchedulerExn (SchedulerDecision × Step × List Node) :=
  if step.status ≠ .queued then
    .error (.schedulerError ("cannot assign step in status " ++ step.status.value))
  else match selectNodeForStep float step nodes config now with
    | .error e => .error (.python e)
    | .ok decision =>
      match decision.selectedNode with
      | none => .ok (decision, step, nodes)
      | some selected =>
        match assignStep step selected.id now with
        | .error e => .error (.transitionError e)
        | .ok step' =>
          .ok (decision, step',
            nodes.map fun n => if n.id = selected.id then n.charge step else n)

variable (float) in
/-- The loop of `schedule_queued_steps`: the steps and nodes as it leaves them. -/
def scheduleLoop (config : SchedulerConfig) (now : Instant) :
    List Step → List Node → Except SchedulerExn (List Step × List Node)
  | [], nodes => .ok ([], nodes)
  | step :: rest, nodes =>
    match assignBestNode float step nodes config now with
    | .error (.schedulerError _) => do
      let (rest', nodes') ← scheduleLoop config now rest nodes
      return (step :: rest', nodes')
    | .error e => .error e
    | .ok (_, step', nodes') => do
      let (rest', nodes'') ← scheduleLoop config now rest nodes'
      return (step' :: rest', nodes'')

/-! ## What a pass does -/

/-- The row of a step assigned to `nodeId`. -/
def Step.assigned (step : Step) (nodeId : String) (now : Instant) : Step :=
  { step with
    status := .assigned
    assignedNodeId := some nodeId
    assignedAt := some now
    assignmentEpoch := step.assignmentEpoch + 1 }

/-- A node after a pass: only the counters may differ. -/
def Node.SameButCounters (n n' : Node) : Prop :=
  n' = { n with
    activeJobs := n'.activeJobs
    activeFfmpegJobs := n'.activeFfmpegJobs
    activeWhisperJobs := n'.activeWhisperJobs }

theorem Node.SameButCounters.refl (n : Node) : n.SameButCounters n := rfl

theorem Node.SameButCounters.trans {a b c : Node} (h : a.SameButCounters b)
    (h' : b.SameButCounters c) : a.SameButCounters c := by
  unfold Node.SameButCounters at *
  rw [h', h]

theorem Node.SameButCounters.id_eq {n n' : Node} (h : n.SameButCounters n') : n'.id = n.id := by
  rw [h]

theorem Node.sameButCounters_charge (step : Step) (n : Node) : n.SameButCounters (n.charge step) :=
  rfl

/-- One call of `assign_best_node` leaves the step alone or assigns it to the
    node it charges, an eligible one. -/
theorem assignBestNode_ok {step step' : Step} {nodes nodes' : List Node}
    {config : SchedulerConfig} {now : Instant} {d : SchedulerDecision}
    (h : assignBestNode float step nodes config now = .ok (d, step', nodes')) :
    step.status = .queued ∧ selectNodeForStep float step nodes config now = .ok d ∧
      ((d.selectedNode = none ∧ step' = step ∧ nodes' = nodes) ∨
        ∃ selected, d.selectedNode = some selected ∧ step' = step.assigned selected.id now ∧
          nodes' = nodes.map fun n => if n.id = selected.id then n.charge step else n) := by
  unfold assignBestNode at h
  split_ifs at h with hq
  simp only [ne_eq, not_not] at hq
  cases hs : selectNodeForStep float step nodes config now with
  | error e => rw [hs] at h; cases h
  | ok decision =>
    rw [hs] at h
    cases hsel : decision.selectedNode with
    | none =>
      simp only [hsel] at h
      cases h
      exact ⟨hq, rfl, Or.inl ⟨hsel, rfl, rfl⟩⟩
    | some selected =>
      have hassign : assignStep step selected.id now = .ok (step.assigned selected.id now) :=
        assignStep_ok.2 ⟨hq, rfl⟩
      simp only [hsel, hassign] at h
      cases h
      exact ⟨hq, rfl, Or.inr ⟨selected, hsel, rfl, rfl⟩⟩

/-- A pass over a list of steps is a call of `assign_best_node` for the first
    and a pass over the rest. -/
theorem scheduleLoop_cons {config : SchedulerConfig} {now : Instant} {step : Step}
    {rest out : List Step} {nodes nodes' : List Node} (hq : step.status = .queued)
    (h : scheduleLoop float config now (step :: rest) nodes = .ok (out, nodes')) :
    ∃ d step' mid rest', assignBestNode float step nodes config now = .ok (d, step', mid) ∧
      scheduleLoop float config now rest mid = .ok (rest', nodes') ∧ out = step' :: rest' := by
  unfold scheduleLoop at h
  cases ha : assignBestNode float step nodes config now with
  | error e =>
    rw [ha] at h
    cases e with
    | schedulerError t =>
      -- raised only for a step that is not queued
      exfalso
      unfold assignBestNode at ha
      simp only [hq, ne_eq, not_true_eq_false, if_false] at ha
      split at ha
      · cases ha
      · split at ha
        · cases ha
        · split at ha <;> cases ha
    | transitionError | python => cases h
  | ok r =>
    obtain ⟨d, step', mid⟩ := r
    rw [ha] at h
    cases hl : scheduleLoop float config now rest mid with
    | error e => simp only [hl] at h; cases h
    | ok r =>
      simp only [hl] at h
      cases h
      exact ⟨d, step', mid, r.1, rfl, hl, rfl⟩

/-- **A pass changes only the counters of the nodes.** -/
theorem scheduleLoop_nodes {config : SchedulerConfig} {now : Instant} {steps out : List Step}
    {nodes nodes' : List Node} (hq : ∀ s ∈ steps, s.status = .queued)
    (h : scheduleLoop float config now steps nodes = .ok (out, nodes')) :
    ∃ g : Node → Node, nodes' = nodes.map g ∧ ∀ n : Node, n.SameButCounters (g n) := by
  induction steps generalizing nodes out with
  | nil => cases h; exact ⟨id, (List.map_id _).symm, fun n => .refl n⟩
  | cons step rest ih =>
    obtain ⟨d, step', mid, rest', ha, hl, rfl⟩ := scheduleLoop_cons (hq step (by simp)) h
    obtain ⟨g, rfl, hg⟩ := ih (fun s hs => hq s (by simp [hs])) hl
    obtain ⟨-, -, ⟨-, -, rfl⟩ | ⟨sel, -, -, rfl⟩⟩ := assignBestNode_ok ha
    · exact ⟨g, rfl, hg⟩
    · refine ⟨_, List.map_map, fun n => .trans (b := if n.id = sel.id then n.charge step else n)
        ?_ (hg _)⟩
      split_ifs
      · exact n.sameButCounters_charge step
      · exact .refl n

/-- **A pass leaves a step alone or assigns it to one of the nodes.** -/
theorem scheduleLoop_steps {config : SchedulerConfig} {now : Instant} {steps out : List Step}
    {nodes nodes' : List Node} (hq : ∀ s ∈ steps, s.status = .queued)
    (h : scheduleLoop float config now steps nodes = .ok (out, nodes')) :
    List.Forall₂ (fun s s' => s' = s ∨ ∃ n ∈ nodes, s' = s.assigned n.id now) steps out := by
  induction steps generalizing nodes out with
  | nil => cases h; exact .nil
  | cons step rest ih =>
    obtain ⟨d, step', mid, rest', ha, hl, rfl⟩ := scheduleLoop_cons (hq step (by simp)) h
    have h2 := ih (fun s hs => hq s (by simp [hs])) hl
    obtain ⟨-, hd, ⟨-, rfl, rfl⟩ | ⟨sel, hsel, rfl, rfl⟩⟩ := assignBestNode_ok ha
    · exact .cons (Or.inl rfl) h2
    · refine .cons (Or.inr ⟨sel, (selectNodeForStep_selected hd hsel).1, rfl⟩) (h2.imp ?_)
      -- the nodes of the rest of the pass are those of the pass, with other counters
      rintro s s' (rfl | ⟨n, hn, rfl⟩)
      · exact Or.inl rfl
      · obtain ⟨n', hn', rfl⟩ := List.mem_map.1 hn
        refine Or.inr ⟨n', hn', ?_⟩
        split_ifs <;> rfl

end MediaOrchard
