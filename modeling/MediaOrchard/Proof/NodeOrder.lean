/-
  The order of the node rows.

  * `selectNodeForStep_iff`: the selected node is the one eligible node that is
    least in cost and id;
  * `selectNodeForStep_keys`: every node is either rejected or scored;
  * `serveStep_perm`: a step is served alike by permutations of the nodes;
  * `node_order_irrelevant`: so are all the steps of a pass.
-/
import MediaOrchard.Proof.Dictionaries
import MediaOrchard.Proof.Pass

namespace MediaOrchard

open Greedy

variable {config : SchedulerConfig} {now : Instant} {step : Step} {steps : List Step}
  {nodes nodes' : List Node} {d d' : SchedulerDecision}

/-! ## Exact arithmetic -/

/-- A priority that `float()` takes has its exact value. -/
theorem nodePriorityBonus_exact {n : Node} {b : ℚ}
    (h : nodePriorityBonus priorityFloat n config = .ok b) :
    nodePriorityBonus exactFloat n config = .ok b := by
  have hfloat : ∀ {p x}, priorityFloat p = .ok x → exactFloat p = .ok x := by
    intro p x hx
    unfold priorityFloat at hx
    cases hp : floatOfInt p with
    | error e => rw [hp] at hx; cases hx
    | ok y => rw [hp] at hx; cases hx; rfl
  unfold nodePriorityBonus at h ⊢
  cases hid : config.nodePriorities.lookup n.id with
  | some p => rw [hid] at h; exact hfloat h
  | none =>
    rw [hid] at h
    cases hhost : n.host with
    | none => rw [hhost] at h; exact h
    | some host =>
      simp only [hhost] at h ⊢
      split_ifs at h ⊢ with hempty
      · exact h
      · cases hp : config.nodePriorities.lookup host with
        | some p => rw [hp] at h; exact hfloat h
        | none => rw [hp] at h; exact h

theorem considerNode_exact {acc acc' : Candidates} {n : Node}
    (h : considerNode priorityFloat step config now acc n = .ok acc') :
    considerNode exactFloat step config now acc n = .ok acc' := by
  unfold considerNode at h ⊢
  obtain ⟨r, hr, h⟩ := bind_ok h
  rw [hr]
  simp only [bind, Except.bind] at h ⊢
  split_ifs at h ⊢ with he
  · obtain ⟨cost, hcost, h⟩ := bind_ok h
    have hexact : calculateNodeCost exactFloat step n config = .ok cost := by
      unfold calculateNodeCost at hcost ⊢
      obtain ⟨b, hb, hcost⟩ := bind_ok hcost
      rw [nodePriorityBonus_exact hb]
      exact hcost
    rw [hexact]
    exact h
  · exact h

/-- **A decision that raises nothing is that of exact arithmetic.** -/
theorem selectNodeForStep_exact (h : selectNodeForStep priorityFloat step nodes config now = .ok d) :
    selectNodeForStep exactFloat step nodes config now = .ok d := by
  have hfold : ∀ {nodes : List Node} {acc acc' : Candidates},
      nodes.foldlM (considerNode priorityFloat step config now) acc = .ok acc' →
      nodes.foldlM (considerNode exactFloat step config now) acc = .ok acc' := by
    intro nodes
    induction nodes with
    | nil => exact fun h => h
    | cons n nodes ih =>
      intro acc acc' h
      rw [List.foldlM_cons] at h ⊢
      obtain ⟨mid, hn, h⟩ := bind_ok h
      rw [considerNode_exact hn]
      exact ih h
  unfold selectNodeForStep at h ⊢
  obtain ⟨acc, hf, h⟩ := bind_ok h
  rw [hfold hf]
  exact h

/-- **A pass that raises nothing is that of exact arithmetic.** -/
theorem scheduleLoop_exact {out : List Step}
    (h : scheduleLoop priorityFloat config now steps nodes = .ok (out, nodes')) :
    scheduleLoop exactFloat config now steps nodes = .ok (out, nodes') := by
  have hserve : ∀ {nodes : List Node} {step : Step} {o},
      serveStep priorityFloat config now nodes step = .ok o →
      serveStep exactFloat config now nodes step = .ok o := by
    intro nodes step o h
    rw [serveStep_eq] at h ⊢
    split_ifs at h ⊢ with hq
    · cases hd : selectNodeForStep priorityFloat step nodes config now with
      | error e => simp only [hd] at h; cases h
      | ok d => rw [selectNodeForStep_exact hd]; rw [hd] at h; exact h
    · exact h
  rw [scheduleLoop_eq_pass] at h ⊢
  refine pass_rec (P := fun steps nodes out nodes' =>
    pass (serveStep exactFloat config now) steps nodes = .ok (out, nodes')) (fun _ => rfl) ?_ ?_ h
  · intro step steps nodes out nodes' hs _ ih
    rw [pass_refused (hserve hs), ih]
    rfl
  · intro step step' steps nodes mid out nodes' hs _ ih
    rw [pass_served (hserve hs), ih]
    rfl

/-- In exact arithmetic every priority has a value. -/
theorem nodePriorityBonus_exactFloat (n : Node) (config : SchedulerConfig) :
    nodePriorityBonus exactFloat n config = .ok (nodePriority n config : ℚ) :=
  nodePriorityBonus_eq rfl n config

theorem considered_exactFloat {n : Node} : Considered exactFloat step config now n ↔
    ∃ r, isNodeEligible step n config now = .ok r :=
  ⟨fun ⟨r, hr, _⟩ => ⟨r, hr⟩,
    fun ⟨r, hr⟩ => ⟨r, hr, fun _ => ⟨_, nodePriorityBonus_exactFloat n config⟩⟩⟩

theorem selectNodeForStep_exactFloat :
    (∃ d, selectNodeForStep exactFloat step nodes config now = .ok d) ↔
      ∀ n ∈ nodes, ∃ r, isNodeEligible step n config now = .ok r := by
  simp only [selectNodeForStep_isOk, considered_exactFloat]

/-! ## The selected node -/

/-- The cost of a node for a step, in exact arithmetic. -/
def nodeCost (step : Step) (config : SchedulerConfig) (n : Node) : ℚ :=
  match calculateNodeCost exactFloat step n config with
  | .ok cost => cost.total
  | .error _ => 0

/-- The candidates are the eligible nodes with their costs. -/
theorem mem_candidates {acc : Candidates}
    (hf : nodes.foldlM (considerNode exactFloat step config now) {} = .ok acc) (c : ℚ × Node) :
    c ∈ acc.candidates ↔
      c.2 ∈ nodes ∧ Eligible step c.2 config now ∧ c.1 = nodeCost step config c.2 := by
  obtain ⟨cost, hcost⟩ : ∃ cost, calculateNodeCost exactFloat step c.2 config = .ok cost :=
    calculateNodeCost_isOk.2 ⟨_, nodePriorityBonus_exactFloat c.2 config⟩
  rw [foldlM_considerNode hf, nodeCost, hcost]
  simp

/-- Node `n` comes before node `m` in the order of costs and ids. -/
def Cheaper (step : Step) (config : SchedulerConfig) (n m : Node) : Prop :=
  nodeCost step config n < nodeCost step config m ∨
    nodeCost step config n = nodeCost step config m ∧ n.id < m.id

theorem Cheaper.asymm {n m : Node} (h : Cheaper step config n m) : ¬ Cheaper step config m n := by
  intro h'
  rcases h with h | ⟨h, hid⟩ <;> rcases h' with h' | ⟨h', hid'⟩
  · exact lt_asymm h h'
  · rw [h'] at h
    exact lt_irrefl _ h
  · rw [h] at h'
    exact lt_irrefl _ h'
  · exact String.lt_irrefl _ (String.lt_trans hid hid')

/-- In the sort order a candidate comes first if its node is cheaper. -/
theorem cheaper_of_candidateLe {n m : Node}
    (h : candidateLe (nodeCost step config n, n) (nodeCost step config m, m)) (hid : m.id ≠ n.id) :
    Cheaper step config n m := by
  refine h.imp (fun hlt => hlt) fun hle => ⟨hle.1, ?_⟩
  by_contra hlt
  exact hid (String.le_antisymm (String.not_lt.1 hlt) hle.2)

/-- The node is eligible, and cheaper than every other eligible node. -/
def Least (step : Step) (nodes : List Node) (config : SchedulerConfig) (now : Instant)
    (n : Node) : Prop :=
  n ∈ nodes ∧ Eligible step n config now ∧
    ∀ m ∈ nodes, Eligible step m config now → m = n ∨ Cheaper step config n m

theorem Least.unique {n m : Node} (h : Least step nodes config now n)
    (h' : Least step nodes config now m) : n = m := by
  obtain ⟨hn, hen, hle⟩ := h
  obtain ⟨hm, hem, hle'⟩ := h'
  rcases hle m hm hem with heq | hlt
  · exact heq.symm
  · rcases hle' n hn hen with heq | hlt'
    · exact heq
    · exact absurd hlt' hlt.asymm

theorem Least.perm {n : Node} (hp : nodes.Perm nodes') (h : Least step nodes config now n) :
    Least step nodes' config now n :=
  ⟨hp.mem_iff.1 h.1, h.2.1, fun m hm => h.2.2 m (hp.mem_iff.2 hm)⟩

/-- **The selected node is the least eligible one.** -/
theorem selectNodeForStep_iff (hnd : (nodes.map Node.id).Nodup)
    (h : selectNodeForStep exactFloat step nodes config now = .ok d) (n : Node) :
    d.selectedNode = some n ↔ Least step nodes config now n := by
  have hleast : ∀ m, d.selectedNode = some m → Least step nodes config now m := by
    intro m hsel
    obtain ⟨hm, hem⟩ := selectNodeForStep_selected h hsel
    refine ⟨hm, hem, fun m' hm' hem' => ?_⟩
    obtain ⟨acc, hf, -, -, ⟨hnone, -⟩ | ⟨c, hc, hcs, hle⟩⟩ := selectNodeForStep_ok h
    · cases hsel.symm.trans hnone
    · cases hsel.symm.trans hcs
      obtain ⟨-, -, hcost⟩ := (mem_candidates hf c).1 hc
      by_cases hid : m'.id = c.2.id
      · exact Or.inl (List.inj_on_of_nodup_map hnd hm' hm hid)
      · have hcand : (nodeCost step config m', m') ∈ acc.candidates :=
          (mem_candidates hf _).2 ⟨hm', hem', rfl⟩
        have hce : c = (nodeCost step config c.2, c.2) := Prod.ext hcost rfl
        have hlt := hle _ hcand
        rw [hce] at hlt
        exact Or.inr (cheaper_of_candidateLe hlt hid)
  constructor
  · exact hleast n
  · intro hn
    cases hsel : d.selectedNode with
    | none => exact absurd hn.2.1 ((selectNodeForStep_none h).1 hsel n hn.1)
    | some m => rw [hn.unique (hleast m hsel)]

/-! ## Rejections and scores -/

/-- The keys of the two dictionaries of a decision. -/
def Candidates.keys (acc : Candidates) : List String :=
  acc.rejected.map Prod.fst ++ acc.scores.map Prod.fst

/-- The loop of `select_node_for_step` enters each node in one of the
    dictionaries, the eligible ones in the scores. -/
theorem foldlM_considerNode_keys {acc acc' : Candidates}
    (h : nodes.foldlM (considerNode exactFloat step config now) acc = .ok acc')
    (hnd : (acc.keys ++ nodes.map Node.id).Nodup) :
    acc'.keys.Perm (acc.keys ++ nodes.map Node.id) ∧
      ∀ key, key ∈ acc'.scores.map Prod.fst ↔ key ∈ acc.scores.map Prod.fst ∨
        ∃ n ∈ nodes, Eligible step n config now ∧ n.id = key := by
  induction nodes generalizing acc with
  | nil =>
    cases h
    simp
  | cons n nodes ih =>
    rw [List.foldlM_cons] at h
    obtain ⟨mid, hn, h⟩ := bind_ok h
    have hnew : n.id ∉ acc.keys := by
      intro hmem
      exact List.disjoint_of_nodup_append hnd hmem (List.mem_map_of_mem List.mem_cons_self)
    rw [Candidates.keys, List.mem_append, not_or] at hnew
    have hmid : mid.keys.Perm (acc.keys ++ [n.id]) ∧ ∀ key, key ∈ mid.scores.map Prod.fst ↔
        key ∈ acc.scores.map Prod.fst ∨ Eligible step n config now ∧ n.id = key := by
      rcases considerNode_ok hn with ⟨he, cost, -, rfl⟩ | ⟨he, reason, rfl⟩
      · simp only [Candidates.keys, dictSet_new hnew.2, List.map_append, List.map_cons,
          List.map_nil, ← List.append_assoc]
        refine ⟨List.Perm.refl _, fun key => ?_⟩
        simp [he, eq_comm]
      · simp only [Candidates.keys, dictSet_new hnew.1, List.map_append, List.map_cons,
          List.map_nil, List.append_assoc]
        refine ⟨List.Perm.append_left _ List.perm_append_comm, fun key => ?_⟩
        simp [he]
    have hkeys : (mid.keys ++ nodes.map Node.id).Perm
        (acc.keys ++ (n :: nodes).map Node.id) := by
      refine (hmid.1.append_right _).trans ?_
      rw [List.append_assoc]
      exact List.Perm.refl _
    obtain ⟨h1, h2⟩ := ih h (hkeys.nodup_iff.2 hnd)
    refine ⟨h1.trans hkeys, fun key => ?_⟩
    rw [h2, hmid.2, List.exists_mem_cons_iff, or_assoc]

/-- **Every node is either rejected or scored**, the eligible ones scored. -/
theorem selectNodeForStep_keys (hnd : (nodes.map Node.id).Nodup)
    (h : selectNodeForStep exactFloat step nodes config now = .ok d) :
    (d.rejectedNodes.map Prod.fst ++ d.scoreBreakdown.map Prod.fst).Perm (nodes.map Node.id) ∧
      ∀ n ∈ nodes, n.id ∈ d.scoreBreakdown.map Prod.fst ↔ Eligible step n config now := by
  obtain ⟨acc, hf, hr, hs, -⟩ := selectNodeForStep_ok h
  obtain ⟨hkeys, hscores⟩ := foldlM_considerNode_keys hf hnd
  rw [hr, hs]
  refine ⟨hkeys, fun n hn => ?_⟩
  rw [hscores]
  constructor
  · rintro (hmem | ⟨m, hm, he, hid⟩)
    · cases hmem
    · rwa [List.inj_on_of_nodup_map hnd hn hm hid.symm]
  · intro he
    exact Or.inr ⟨n, hn, he, rfl⟩

/-! ## Permuted nodes -/

/-- The same nodes, in any order. -/
def SameNodes (nodes nodes' : List Node) : Prop :=
  nodes.Perm nodes' ∧ (nodes.map Node.id).Nodup

theorem SameNodes.symm (h : SameNodes nodes nodes') : SameNodes nodes' nodes :=
  ⟨h.1.symm, (h.1.map _).nodup_iff.1 h.2⟩

theorem SameNodes.charge (step : Step) (sel : Node) (h : SameNodes nodes nodes') :
    SameNodes (chargeNode step sel nodes) (chargeNode step sel nodes') :=
  ⟨h.1.map _, by rw [chargeNode_ids]; exact h.2⟩

theorem SameNodes.selected (hs : SameNodes nodes nodes')
    (h : selectNodeForStep exactFloat step nodes config now = .ok d)
    (h' : selectNodeForStep exactFloat step nodes' config now = .ok d') :
    d.selectedNode = d'.selectedNode := by
  ext n
  rw [selectNodeForStep_iff hs.2 h, selectNodeForStep_iff hs.symm.2 h']
  exact ⟨fun hn => hn.perm hs.1, fun hn => hn.perm hs.1.symm⟩

/-- If one order of the nodes raises, every order raises the same. -/
theorem SameNodes.raises (hs : SameNodes nodes nodes') {e : PyError}
    (h : selectNodeForStep exactFloat step nodes config now = .error e) :
    selectNodeForStep exactFloat step nodes' config now = .error e := by
  have heligible : ∀ {m e}, (isNodeEligible step m config now = .error e ∨
      Eligible step m config now ∧ nodePriorityBonus exactFloat m config = .error e) →
      isNodeEligible step m config now = .error e := by
    rintro m e (he | ⟨-, he⟩)
    · exact he
    · cases (nodePriorityBonus_exactFloat m config).symm.trans he
  obtain ⟨n, hn, he⟩ := selectNodeForStep_error h
  cases hd : selectNodeForStep exactFloat step nodes' config now with
  | ok d =>
    obtain ⟨r, hr, -⟩ := selectNodeForStep_isOk.1 ⟨d, hd⟩ n (hs.1.mem_iff.1 hn)
    cases (heligible he).symm.trans hr
  | error e' =>
    obtain ⟨m, -, he'⟩ := selectNodeForStep_error hd
    rw [isNodeEligible_error_unique (heligible he) (heligible he')]

variable (config now) in
/-- **A step is served alike** by the same nodes in any order. -/
theorem serveStep_perm (hs : SameNodes nodes nodes') (step : Step) :
    ServedAlike SameNodes (serveStep exactFloat config now nodes step)
      (serveStep exactFloat config now nodes' step) := by
  rw [serveStep_eq, serveStep_eq]
  split_ifs
  · cases hd : selectNodeForStep exactFloat step nodes config now with
    | error e =>
      rw [hs.raises hd]
      rfl
    | ok d =>
      obtain ⟨d', hd'⟩ := selectNodeForStep_isOk.2 fun n hn =>
        selectNodeForStep_isOk.1 ⟨d, hd⟩ n (hs.1.mem_iff.2 hn)
      have hsel := hs.selected hd hd'
      simp only [hd', ← hsel]
      cases d.selectedNode with
      | none => trivial
      | some sel => exact ⟨rfl, hs.charge step sel⟩
  · trivial

variable (config now) in
/-- Passes over the same nodes in any order. -/
theorem scheduleLoop_perm (hs : SameNodes nodes nodes') (steps : List Step) :
    (∃ e, scheduleLoop exactFloat config now steps nodes = .error e ∧
      scheduleLoop exactFloat config now steps nodes' = .error e) ∨
    ∃ out ns ns', scheduleLoop exactFloat config now steps nodes = .ok (out, ns) ∧
      scheduleLoop exactFloat config now steps nodes' = .ok (out, ns') ∧ ns.Perm ns' ∧
      (ns.map Node.id).Nodup := by
  have halike := pass_rel (fun ns ns' step hs => serveStep_perm config now hs step) steps nodes
    nodes' hs
  rw [← scheduleLoop_eq_pass, ← scheduleLoop_eq_pass] at halike
  rcases h : scheduleLoop exactFloat config now steps nodes with e | ⟨out, ns⟩ <;>
    rcases h' : scheduleLoop exactFloat config now steps nodes' with e' | ⟨out', ns'⟩ <;>
    rw [h, h'] at halike
  · exact Or.inl ⟨e, rfl, by rw [show e = e' from halike]⟩
  · exact halike.elim
  · exact halike.elim
  · obtain ⟨rfl, hsame⟩ := halike
    exact Or.inr ⟨out, ns, ns', rfl, rfl, hsame.1, hsame.2⟩

/-- **The order of the node rows is irrelevant.**  Passes over permutations of
    the nodes raise the same exception or leave the same steps and, up to the
    order, the same nodes; with `float()` all of them raise or none does, and then
    they do that too.  The decision for one step is the least eligible node, or
    none if none is eligible, every node being either rejected or scored. -/
theorem node_order_irrelevant (config : SchedulerConfig) (now : Instant) :
    (∀ steps nodes nodes', nodes.Perm nodes' → (nodes.map Node.id).Nodup →
      (∃ e, scheduleLoop exactFloat config now steps nodes = .error e ∧
        scheduleLoop exactFloat config now steps nodes' = .error e) ∨
      ∃ out ns ns', scheduleLoop exactFloat config now steps nodes = .ok (out, ns) ∧
        scheduleLoop exactFloat config now steps nodes' = .ok (out, ns') ∧ ns.Perm ns' ∧
        (ns.map Node.id).Nodup) ∧
    (∀ steps nodes nodes', (∀ s ∈ steps, s.status = .queued) → nodes.Perm nodes' →
      (nodes.map Node.id).Nodup →
      (∃ e e', scheduleLoop priorityFloat config now steps nodes = .error e ∧
        scheduleLoop priorityFloat config now steps nodes' = .error e') ∨
      ∃ out ns ns', scheduleLoop priorityFloat config now steps nodes = .ok (out, ns) ∧
        scheduleLoop priorityFloat config now steps nodes' = .ok (out, ns') ∧ ns.Perm ns') ∧
    ∀ (step : Step) (nodes : List Node), (nodes.map Node.id).Nodup →
      (step.WellFormed → ∃ d, selectNodeForStep exactFloat step nodes config now = .ok d) ∧
      ∀ d, selectNodeForStep exactFloat step nodes config now = .ok d →
        (∀ n, d.selectedNode = some n ↔ n ∈ nodes ∧ Eligible step n config now ∧
          ∀ m ∈ nodes, Eligible step m config now → m = n ∨ Cheaper step config n m) ∧
        (d.selectedNode = none ↔ ∀ n ∈ nodes, ¬ Eligible step n config now) ∧
        (d.rejectedNodes.map Prod.fst ++ d.scoreBreakdown.map Prod.fst).Perm
          (nodes.map Node.id) ∧
        ∀ n ∈ nodes, n.id ∈ d.scoreBreakdown.map Prod.fst ↔ Eligible step n config now := by
  refine ⟨fun steps nodes nodes' hp hnd => scheduleLoop_perm config now ⟨hp, hnd⟩ steps,
    fun steps nodes nodes' hq hp hnd => ?_, fun step nodes hnd => ?_⟩
  · -- whether the pass raises does not depend on the order
    have hok : ∀ {ns}, nodes.Perm ns →
        ((∃ out nodes', scheduleLoop priorityFloat config now steps ns = .ok (out, nodes')) ↔
          ∀ s ∈ steps, ∀ n ∈ nodes, Considered priorityFloat s config now n) := by
      intro ns hns
      simp only [scheduleLoop_eq_pass]
      rw [pass_isOk_iff hq ((hns.map _).nodup_iff.1 hnd)]
      simp only [hns.mem_iff]
    rcases h : scheduleLoop priorityFloat config now steps nodes with e | ⟨out, ns⟩ <;>
      rcases h' : scheduleLoop priorityFloat config now steps nodes' with e' | ⟨out', ns'⟩
    · exact Or.inl ⟨e, e', rfl, rfl⟩
    · obtain ⟨out, ns, hd⟩ := (hok (List.Perm.refl _)).2 ((hok hp).1 ⟨out', ns', h'⟩)
      cases h.symm.trans hd
    · obtain ⟨out, ns, hd⟩ := (hok hp).2 ((hok (List.Perm.refl _)).1 ⟨out, ns, h⟩)
      cases h'.symm.trans hd
    · refine Or.inr ?_
      rcases scheduleLoop_perm config now ⟨hp, hnd⟩ steps with ⟨e, he, -⟩ | ⟨o, u, u', hu, hu', hperm, -⟩
      · cases (scheduleLoop_exact h).symm.trans he
      · cases (scheduleLoop_exact h).symm.trans hu
        cases (scheduleLoop_exact h').symm.trans hu'
        exact ⟨out, ns, ns', rfl, rfl, hperm⟩
  · refine ⟨fun hwf => selectNodeForStep_exactFloat.2 fun n _ => hwf.isNodeEligible_ok n config now,
      fun d hd => ⟨selectNodeForStep_iff hnd hd, selectNodeForStep_none hd,
        selectNodeForStep_keys hnd hd⟩⟩

/-- Two idle nodes, whose tie is broken by their ids in either order. -/
theorem node_order_irrelevant_sample :
    let steps := [sampleStep "whisper" "step_a"]
    let air : Node := { sampleReady with id := "air" }
    ∃ out ns ns',
      scheduleLoop exactFloat sampleApp.schedulerConfig 1 steps [sampleReady, air] = .ok (out, ns) ∧
      scheduleLoop exactFloat sampleApp.schedulerConfig 1 steps [air, sampleReady] = .ok (out, ns') ∧
      ns.Perm ns' ∧ out.map Step.assignedNodeId = [some "air"] := by
  intro steps air
  have hout : (scheduleLoop exactFloat sampleApp.schedulerConfig 1 steps
      [sampleReady, air]).toOption.map (fun r => r.1.map Step.assignedNodeId) =
        some [some "air"] := by decide +kernel
  have hnd : ([sampleReady, air].map Node.id).Nodup := by decide
  rcases (node_order_irrelevant sampleApp.schedulerConfig 1).1 steps _ _ (.swap air sampleReady [])
    hnd with ⟨e, he, -⟩ | ⟨out, ns, ns', h, h', hp, -⟩
  · rw [he] at hout
    cases hout
  · refine ⟨out, ns, ns', h, h', hp, ?_⟩
    rw [h] at hout
    exact Option.some.inj hout

end MediaOrchard
