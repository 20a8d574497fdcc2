/-
  What moves the choice of a node.

  * `Improved n n'`: `n'` is `n` with no more load, no less room and no earlier
    heartbeat; it stays eligible (`Improved.eligible`) and costs no more
    (`Improved.cost_le`);
  * `Least.shift`: the least node stays least if it gets no dearer and no other
    node gets cheaper;
  * `improving_keeps_step`: a selected node that improves stays selected, and so
    it does when another node worsens or goes;
  * `priority_dominates`: a node is passed over for one whose priority is higher
    by more than the filters let the load count.
-/
import MediaOrchard.Proof.NodeOrder
import Mathlib.Tactic.Linarith

namespace MediaOrchard

variable {config : SchedulerConfig} {now : Instant} {step : Step} {nodes nodes' : List Node}
  {d : SchedulerDecision} {n n' m : Node}

/-! ## Better nodes -/

/-- Node `n'` is node `n` with no more load, no less room and no earlier heartbeat. -/
structure Improved (n n' : Node) : Prop where
  same : n' = { n with
    cpuPercent := n'.cpuPercent
    memoryPercent := n'.memoryPercent
    freeDiskGb := n'.freeDiskGb
    activeJobs := n'.activeJobs
    activeFfmpegJobs := n'.activeFfmpegJobs
    activeWhisperJobs := n'.activeWhisperJobs
    maxFfmpegJobs := n'.maxFfmpegJobs
    maxWhisperJobs := n'.maxWhisperJobs
    lastHeartbeatAt := n'.lastHeartbeatAt }
  cpu : n'.cpuPercent ≤ n.cpuPercent
  memory : n'.memoryPercent ≤ n.memoryPercent
  disk : n.freeDiskGb ≤ n'.freeDiskGb
  jobs : n'.activeJobs ≤ n.activeJobs
  ffmpegJobs : n'.activeFfmpegJobs ≤ n.activeFfmpegJobs
  whisperJobs : n'.activeWhisperJobs ≤ n.activeWhisperJobs
  maxFfmpeg : n.maxFfmpegJobs ≤ n'.maxFfmpegJobs
  maxWhisper : n.maxWhisperJobs ≤ n'.maxWhisperJobs
  heartbeat : ∀ t, n.lastHeartbeatAt = some t → ∃ t', n'.lastHeartbeatAt = some t' ∧ t ≤ t'

theorem Improved.id_eq (h : Improved n n') : n'.id = n.id := by rw [h.same]

/-- A later heartbeat expires later. -/
theorem Improved.fresh (h : Improved n n') (hf : heartbeatExpired n config now = false) :
    heartbeatExpired n' config now = false := by
  unfold heartbeatExpired at hf ⊢
  cases ht : n.lastHeartbeatAt with
  | none => rw [ht] at hf; cases hf
  | some t =>
    obtain ⟨t', ht', hle⟩ := h.heartbeat t ht
    rw [ht] at hf
    rw [ht']
    simp only [decide_eq_false_iff_not, gt_iff_lt, not_lt] at hf ⊢
    exact (sub_le_sub_left hle now).trans hf

/-! ## Filters -/

theorem Improved.fit (h : Improved n n') (hf : Fit n config now) : Fit n' config now where
  online := by rw [h.same]; exact hf.online
  fresh := h.fresh hf.fresh
  root := by rw [h.same]; exact hf.root
  cpu := h.cpu.trans hf.cpu
  memory := h.memory.trans hf.memory
  disk := hf.disk.trans h.disk
  thermal := by rw [h.same]; exact hf.thermal

theorem batteryBlocked_improved (h : Improved n n') :
    batteryBlocked step n' config = batteryBlocked step n config := by
  unfold batteryBlocked
  rw [h.same]

/-- **An eligible node that improves stays eligible.** -/
theorem Improved.eligible (h : Improved n n') (he : Eligible step n config now) :
    Eligible step n' config now := by
  obtain ⟨ha, hs⟩ := eligible_iff.1 he
  obtain ⟨h1, h2, h3, h4, h5, h6, h7⟩ := h.fit ha.fit
  refine eligible_iff.2 ⟨⟨h1, h2, h3, h4, h5, h6, h7, ?_, ?_⟩, ⟨fun hw => ?_, fun hf => ?_⟩⟩
  · rw [h.id_eq]
    exact ha.notAvoided
  · rw [batteryBlocked_improved h]
    exact ha.battery
  · exact h.whisperJobs.trans_lt ((hs.whisper hw).trans_le h.maxWhisper)
  · exact h.ffmpegJobs.trans_lt ((hs.ffmpeg hf).trans_le h.maxFfmpeg)

/-- A node that raises does so when it improves. -/
theorem Improved.raises (h : Improved n n') {e : PyError}
    (he : isNodeEligible step n config now = .error e) :
    isNodeEligible step n' config now = .error e := by
  have hf := fit_of_error he
  rw [isNodeEligible_fit hf] at he
  rw [isNodeEligible_fit (h.fit hf), h.id_eq, batteryBlocked_improved h]
  cases ha : avoidNodes step with
  | error e' => rw [ha] at he; exact he
  | ok avoid =>
  cases hc : avoid.contains n.id with
  | error e' => simp only [ha, bind, Except.bind, hc] at he ⊢; exact he
  | ok avoided =>
  simp only [ha, bind, Except.bind, hc, pure, Except.pure] at he ⊢
  obtain ⟨havoid, he⟩ := passed_behind he
  rw [if_neg havoid]
  cases hb : batteryBlocked step n config with
  | error e' => rw [hb] at he; exact he
  | ok blocked =>
    -- the filters behind the estimate raise nothing
    simp only [hb] at he
    iterate 3 replace he := raises_behind he
    cases he

/-! ## Costs -/

theorem nodeCost_eq (step : Step) (config : SchedulerConfig) (n : Node) :
    nodeCost step config n = 3 / 10 * n.cpuPercent + 2 / 10 * n.memoryPercent +
      15 / 100 * sameTypeActiveJobs step n + 1 / 10 * thermalPenalty n -
      nodePriority n config := by
  simp [nodeCost, calculateNodeCost, nodePriorityBonus_exactFloat, bind, Except.bind, pure,
    Except.pure]

theorem Improved.sameTypeActiveJobs_le (h : Improved n n') :
    sameTypeActiveJobs step n' ≤ sameTypeActiveJobs step n := by
  unfold sameTypeActiveJobs
  split_ifs
  · exact_mod_cast h.whisperJobs
  · exact_mod_cast h.ffmpegJobs
  · exact_mod_cast h.jobs

/-- The config with other node priorities. -/
def SchedulerConfig.withPriorities (config : SchedulerConfig) (p : List (String × ℤ)) :
    SchedulerConfig := { config with nodePriorities := p }

/-- **A node that improves costs no more**, unless its priority falls. -/
theorem Improved.cost_le (h : Improved n n') {config' : SchedulerConfig}
    (hp : nodePriority n config ≤ nodePriority n' config') :
    nodeCost step config' n' ≤ nodeCost step config n := by
  have hthermal : thermalPenalty n' = thermalPenalty n := by
    unfold thermalPenalty
    rw [h.same]
  have hjobs : sameTypeActiveJobs step n' ≤ sameTypeActiveJobs step n := h.sameTypeActiveJobs_le
  have hpriority : (nodePriority n config : ℚ) ≤ nodePriority n' config' := by exact_mod_cast hp
  have hcpu := h.cpu
  have hmemory := h.memory
  rw [nodeCost_eq, nodeCost_eq, hthermal]
  linarith

/-! ## Priorities -/

/-- The priority key applies to the node. -/
def Node.HasKey (n : Node) (key : String) : Prop := key = n.id ∨ n.host = some key

/-- The bonus depends on the keys of the node alone. -/
theorem nodePriority_congr {config' : SchedulerConfig} (hid : n'.id = n.id)
    (hhost : n'.host = n.host) (h : ∀ key, n.HasKey key →
      config'.nodePriorities.lookup key = config.nodePriorities.lookup key) :
    nodePriority n' config' = nodePriority n config := by
  unfold nodePriority
  rw [hid, hhost, h n.id (Or.inl rfl)]
  cases hn : n.host with
  | none => rfl
  | some host =>
    have hkey := h host (Or.inr hn)
    by_cases hempty : host = "" <;> simp [Option.filter, hempty, hkey]

/-- `p` gives other priorities only under keys that apply to no node of `nodes`
    but `n`. -/
def SchedulerConfig.OnlyFor (config : SchedulerConfig) (p : List (String × ℤ)) (n : Node)
    (nodes : List Node) : Prop :=
  ∀ m ∈ nodes, m ≠ n → ∀ key, m.HasKey key → p.lookup key = config.nodePriorities.lookup key

/-! ## The least node -/

/-- **The least node stays least** if it gets no dearer and no other node gets
    cheaper or eligible. -/
theorem Least.shift {config' : SchedulerConfig} (h : Least step nodes config now n)
    (hn' : n' ∈ nodes') (he : Eligible step n' config' now) (hid : n'.id = n.id)
    (hc : nodeCost step config' n' ≤ nodeCost step config n)
    (hrest : ∀ m' ∈ nodes', m' ≠ n' → Eligible step m' config' now → ∃ m ∈ nodes, m ≠ n ∧
      m.id = m'.id ∧ Eligible step m config now ∧
        nodeCost step config m ≤ nodeCost step config' m') :
    Least step nodes' config' now n' := by
  refine ⟨hn', he, fun m' hm' hem' => ?_⟩
  by_cases hne : m' = n'
  · exact Or.inl hne
  obtain ⟨m, hm, hmn, hmid, hem, hcm⟩ := hrest m' hm' hne hem'
  refine Or.inr ?_
  rcases (h.2.2 m hm hem).resolve_left hmn with hlt | ⟨heq, hlt⟩
  · exact Or.inl (hc.trans_lt (hlt.trans_le hcm))
  · rcases (hc.trans (heq.le.trans hcm)).lt_or_eq with hlt' | heq'
    · exact Or.inl hlt'
    · exact Or.inr ⟨heq', by rw [hid, ← hmid]; exact hlt⟩

/-- The least node is selected. -/
theorem Least.selected (h : Least step nodes config now n) (hnd : (nodes.map Node.id).Nodup)
    (hok : ∀ m ∈ nodes, ∃ r, isNodeEligible step m config now = .ok r) :
    ∃ d, selectNodeForStep exactFloat step nodes config now = .ok d ∧ d.selectedNode = some n := by
  obtain ⟨d, hd⟩ := selectNodeForStep_exactFloat.2 hok
  exact ⟨d, hd, (selectNodeForStep_iff hnd hd n).2 h⟩

/-! ## One node changes -/

/-- The nodes with `n'` in place of `n`. -/
def replaceNode (n n' : Node) (nodes : List Node) : List Node :=
  nodes.map fun m => if m.id = n.id then n' else m

theorem replaceNode_ids (hid : n'.id = n.id) :
    (replaceNode n n' nodes).map Node.id = nodes.map Node.id := by
  unfold replaceNode
  rw [List.map_map]
  refine List.map_congr_left fun m _ => ?_
  by_cases hm : m.id = n.id <;> simp [hm, hid]

theorem mem_replaceNode (hnd : (nodes.map Node.id).Nodup) (hn : n ∈ nodes) :
    m ∈ replaceNode n n' nodes ↔ m = n' ∨ (m ∈ nodes ∧ m ≠ n) := by
  simp only [replaceNode, List.mem_map]
  constructor
  · rintro ⟨k, hk, rfl⟩
    by_cases hid : k.id = n.id
    · exact Or.inl (if_pos hid)
    · rw [if_neg hid]
      exact Or.inr ⟨hk, fun heq => hid (heq ▸ rfl)⟩
  · rintro (rfl | ⟨hm, hne⟩)
    · exact ⟨n, hn, if_pos rfl⟩
    · exact ⟨m, hm, if_neg fun hid => hne (List.inj_on_of_nodup_map hnd hm hn hid)⟩

/-- The other nodes cost the same under priorities that are not theirs. -/
theorem nodeCost_other {p : List (String × ℤ)} (hp : config.OnlyFor p n nodes) (hm : m ∈ nodes)
    (hne : m ≠ n) : nodeCost step (config.withPriorities p) m = nodeCost step config m := by
  rw [nodeCost_eq, nodeCost_eq, nodePriority_congr rfl rfl fun key hk => hp m hm hne key hk]

/-- An improved node stays selected. -/
theorem Least.improved {p : List (String × ℤ)} (hleast : Least step nodes config now n)
    (hnd : (nodes.map Node.id).Nodup) (himp : Improved n n') (hp : config.OnlyFor p n nodes)
    (hbonus : nodePriority n config ≤ nodePriority n (config.withPriorities p)) :
    Least step (replaceNode n n' nodes) (config.withPriorities p) now n' := by
  have hmem : ∀ m, m ∈ replaceNode n n' nodes ↔ m = n' ∨ (m ∈ nodes ∧ m ≠ n) := fun m =>
    mem_replaceNode hnd hleast.1
  have hcost : nodeCost step (config.withPriorities p) n' ≤ nodeCost step config n := by
    refine himp.cost_le (hbonus.trans_eq ?_)
    unfold nodePriority
    rw [himp.same]
  refine hleast.shift ((hmem n').2 (Or.inl rfl)) (himp.eligible hleast.2.1) himp.id_eq hcost
    fun m hm hne hem => ?_
  obtain ⟨hmn, hne⟩ := ((hmem m).1 hm).resolve_left hne
  exact ⟨m, hmn, hne, rfl, hem, (nodeCost_other hp hmn hne).ge⟩

/-- The least node stays least if another one worsens. -/
theorem Least.worsened {p : List (String × ℤ)} {b b' : Node}
    (hleast : Least step nodes config now n) (hnd : (nodes.map Node.id).Nodup) (hb : b ∈ nodes)
    (hne : b ≠ n) (himp : Improved b' b) (hp : config.OnlyFor p b nodes)
    (hbonus : nodePriority b (config.withPriorities p) ≤ nodePriority b config) :
    Least step (replaceNode b b' nodes) (config.withPriorities p) now n := by
  have hmem : ∀ m, m ∈ replaceNode b b' nodes ↔ m = b' ∨ (m ∈ nodes ∧ m ≠ b) := fun m =>
    mem_replaceNode hnd hb
  have hcost : nodeCost step config b ≤ nodeCost step (config.withPriorities p) b' := by
    refine himp.cost_le (le_trans (le_of_eq ?_) hbonus)
    unfold nodePriority
    rw [himp.same]
  refine hleast.shift ((hmem n).2 (Or.inr ⟨hleast.1, hne.symm⟩)) hleast.2.1 rfl
    (nodeCost_other hp hleast.1 hne.symm).le fun m hm hmn hem => ?_
  rcases (hmem m).1 hm with rfl | ⟨hmem', hmb⟩
  · exact ⟨b, hb, hne, himp.id_eq, himp.eligible hem, hcost⟩
  · exact ⟨m, hmem', hmn, rfl, hem, (nodeCost_other hp hmem' hmb).ge⟩

/-- A node that worsens raises nothing new. -/
theorem Improved.ok (h : Improved n n')
    (hok : ∃ r, isNodeEligible step n' config now = .ok r) :
    ∃ r, isNodeEligible step n config now = .ok r := by
  cases hr : isNodeEligible step n config now with
  | ok r => exact ⟨r, rfl⟩
  | error e =>
    obtain ⟨r, hr'⟩ := hok
    cases (h.raises hr).symm.trans hr'

variable {a : Node}

/-- **Improving a node never costs it the step.**  A selected node that improves,
    its priority included, stays selected; it stays selected when other nodes go,
    and when another node worsens. -/
theorem improving_keeps_step (hnd : (nodes.map Node.id).Nodup)
    (h : selectNodeForStep exactFloat step nodes config now = .ok d) (hsel : d.selectedNode = some a) :
    (∀ a' p, Improved a a' → config.OnlyFor p a nodes →
      nodePriority a config ≤ nodePriority a (config.withPriorities p) →
      ∃ d', selectNodeForStep exactFloat step (replaceNode a a' nodes) (config.withPriorities p) now =
        .ok d' ∧ d'.selectedNode = some a') ∧
    (∀ nodes', nodes'.Sublist nodes → a ∈ nodes' →
      ∃ d', selectNodeForStep exactFloat step nodes' config now = .ok d' ∧ d'.selectedNode = some a) ∧
    ∀ b ∈ nodes, b ≠ a → ∀ b' p, Improved b' b → config.OnlyFor p b nodes →
      nodePriority b (config.withPriorities p) ≤ nodePriority b config →
      ∃ d', selectNodeForStep exactFloat step (replaceNode b b' nodes) (config.withPriorities p) now =
        .ok d' ∧ d'.selectedNode = some a := by
  have hleast := (selectNodeForStep_iff hnd h a).1 hsel
  have hok := selectNodeForStep_exactFloat.1 ⟨d, h⟩
  refine ⟨fun a' p himp hp hbonus => ?_, fun nodes' hsub ha => ?_,
    fun b hb hne b' p himp hp hbonus => ?_⟩
  · refine (hleast.improved hnd himp hp hbonus).selected ?_ fun m hm => ?_
    · rwa [replaceNode_ids himp.id_eq]
    · rcases (mem_replaceNode hnd hleast.1).1 hm with rfl | ⟨hm, -⟩
      · obtain ⟨r, hr, -⟩ := himp.eligible hleast.2.1
        exact ⟨r, hr⟩
      · exact hok m hm
  · have hleast' : Least step nodes' config now a :=
      ⟨ha, hleast.2.1, fun m hm => hleast.2.2 m (hsub.subset hm)⟩
    exact hleast'.selected ((hsub.map Node.id).nodup hnd) fun m hm => hok m (hsub.subset hm)
  · refine (hleast.worsened hnd hb hne himp hp hbonus).selected ?_ fun m hm => ?_
    · rwa [replaceNode_ids himp.id_eq.symm]
    · rcases (mem_replaceNode hnd hb).1 hm with rfl | ⟨hm, -⟩
      · exact himp.ok (hok b hb)
      · exact hok m hm

/-- Of two idle nodes the one selected by its id stays selected when it gets
    less busy and its priority is raised. -/
theorem improving_keeps_step_sample :
    let air : Node := { sampleReady with id := "air", cpuPercent := 10, memoryPercent := 5 }
    let air' : Node := { air with cpuPercent := 5, lastHeartbeatAt := some 1 }
    let mac : Node := { sampleReady with cpuPercent := 20 }
    ∃ d', selectNodeForStep exactFloat (sampleStep "whisper" "step_a") (replaceNode air air' [mac, air])
        (sampleApp.schedulerConfig.withPriorities [("air", 3)]) 1 = .ok d' ∧
      d'.selectedNode = some air' := by
  intro air air' mac
  have hsel : (selectNodeForStep exactFloat (sampleStep "whisper" "step_a") [mac, air]
      sampleApp.schedulerConfig 1).toOption.map SchedulerDecision.selectedNode =
        some (some air) := by decide +kernel
  cases h : selectNodeForStep exactFloat (sampleStep "whisper" "step_a") [mac, air]
      sampleApp.schedulerConfig 1 with
  | error e => rw [h] at hsel; cases hsel
  | ok d =>
    rw [h] at hsel
    refine (improving_keeps_step (by decide) h (Option.some.inj hsel)).1 air' _ ?_ ?_ ?_
    · exact ⟨rfl, by decide +kernel, le_rfl, le_rfl, le_rfl, le_rfl, le_rfl, le_rfl, le_rfl,
        fun t ht => ⟨1, rfl, by cases ht; decide⟩⟩
    · intro m hm hne key hkey
      simp only [List.mem_cons, List.not_mem_nil, or_false] at hm
      rcases hm with rfl | rfl
      · rcases hkey with rfl | hhost
        · rfl
        · cases hhost
      · exact absurd rfl hne
    · decide +kernel

/-! ## Priority against load -/

/-- No eligible node is cheaper than the selected one. -/
theorem selectNodeForStep_le (h : selectNodeForStep exactFloat step nodes config now = .ok d)
    (hsel : d.selectedNode = some n) (hm : m ∈ nodes) (hem : Eligible step m config now) :
    nodeCost step config n ≤ nodeCost step config m := by
  obtain ⟨acc, hf, -, -, ⟨hnone, -⟩ | ⟨c, hc, hcs, hle⟩⟩ := selectNodeForStep_ok h
  · cases hsel.symm.trans hnone
  · cases hsel.symm.trans hcs
    obtain ⟨-, -, hcost⟩ := (mem_candidates hf c).1 hc
    have hcand : (nodeCost step config m, m) ∈ acc.candidates :=
      (mem_candidates hf _).2 ⟨hm, hem, rfl⟩
    rw [← hcost]
    exact (hle _ hcand).elim le_of_lt fun heq => heq.1.le

/-- The metrics and counters of the node are not negative. -/
structure Node.NonNeg (n : Node) : Prop where
  cpu : 0 ≤ n.cpuPercent
  memory : 0 ≤ n.memoryPercent
  jobs : 0 ≤ n.activeJobs
  ffmpegJobs : 0 ≤ n.activeFfmpegJobs
  whisperJobs : 0 ≤ n.activeWhisperJobs

theorem Node.NonNeg.sameTypeActiveJobs (h : n.NonNeg) : 0 ≤ sameTypeActiveJobs step n := by
  unfold MediaOrchard.sameTypeActiveJobs
  split_ifs
  · exact_mod_cast h.whisperJobs
  · exact_mod_cast h.ffmpegJobs
  · exact_mod_cast h.jobs

theorem thermalPenalty_eq (n : Node) : thermalPenalty n =
    if n.thermalState = "normal" then 0 else if n.thermalState = "fair" then 20
    else if n.thermalState ∈ ["serious", "critical"] then 100 else 10 := by
  unfold thermalPenalty
  split_ifs with h1 h2 h3
  · rw [h1]
    rfl
  · rw [h2]
    rfl
  · simp only [List.mem_cons, List.not_mem_nil, or_false] at h3
    rcases h3 with h3 | h3 <;> rw [h3] <;> rfl
  · simp only [List.mem_cons, List.not_mem_nil, or_false, not_or] at h3
    simp only [List.lookup_cons, List.lookup_nil, beq_eq_false_iff_ne.2 h1,
      beq_eq_false_iff_ne.2 h2, beq_eq_false_iff_ne.2 h3.1, beq_eq_false_iff_ne.2 h3.2,
      Option.getD_none]

theorem thermalPenalty_nonneg (n : Node) : 0 ≤ thermalPenalty n := by
  rw [thermalPenalty_eq]
  split_ifs <;> norm_num

/-- A node that is not blocked for heat has a penalty of at most 20. -/
theorem Fit.thermalPenalty_le (h : Fit n config now) : thermalPenalty n ≤ 20 := by
  rw [thermalPenalty_eq, if_neg h.thermal]
  split_ifs <;> norm_num

/-- **Priority dominates load, never a filter.**  An ineligible node is not
    selected, and a node is not selected if the priority of another eligible one
    is higher by more than the load of that one can cost. -/
theorem priority_dominates (step : Step) (config : SchedulerConfig) (now : Instant)
    (nodes : List Node) (hnn : ∀ n ∈ nodes, n.NonNeg) {d : SchedulerDecision}
    (h : selectNodeForStep exactFloat step nodes config now = .ok d) :
    (∀ n, ¬ Eligible step n config now → d.selectedNode ≠ some n) ∧
    (∀ a ∈ nodes, ∀ b ∈ nodes, Eligible step a config now → Eligible step b config now →
      ∀ pa pb, nodePriorityBonus exactFloat a config = .ok pa →
      nodePriorityBonus exactFloat b config = .ok pb →
      pa - pb > 3 / 10 * config.maxCpuPercent + 2 / 10 * config.maxMemoryPercent + 2 +
        15 / 100 * sameTypeActiveJobs step a → d.selectedNode ≠ some b) ∧
    ∀ n : Node, nodePriorityBonus exactFloat n config =
      .ok (((config.nodePriorities.lookup n.id).or ((n.host.filter (· ≠ "")).bind fun host =>
        config.nodePriorities.lookup host)).getD 0 : ℤ) := by
  refine ⟨fun n hn hsel => hn (selectNodeForStep_selected h hsel).2,
    fun a ha b hb hea _ pa pb hpa hpb hgap hsel => ?_, fun n => nodePriorityBonus_exactFloat n config⟩
  rw [nodePriorityBonus_exactFloat] at hpa hpb
  cases hpa
  cases hpb
  -- the filters bound the cost of `a` without its priority, that of `b` is not negative
  have hle := selectNodeForStep_le h hsel ha hea
  have hfit := (eligible_iff.1 hea).1.fit
  have hcpu := hfit.cpu
  have hmemory := hfit.memory
  have hthermal := hfit.thermalPenalty_le
  have hcpu' := (hnn b hb).cpu
  have hmemory' := (hnn b hb).memory
  have hjobs' : 0 ≤ sameTypeActiveJobs step b := (hnn b hb).sameTypeActiveJobs
  have hthermal' := thermalPenalty_nonneg b
  rw [nodeCost_eq, nodeCost_eq] at hle
  linarith

/-- A busy node with priority 100 is taken before an idle one, which is not hot. -/
theorem priority_dominates_sample :
    let config := sampleApp.schedulerConfig.withPriorities [("10.0.0.8", 100)]
    let far : Node := { sampleReady with id := "far", host := some "10.0.0.8", cpuPercent := 60 }
    ∃ d, selectNodeForStep exactFloat (sampleStep "whisper" "step_a") [sampleReady, far] config 1 =
      .ok d ∧ d.selectedNode ≠ some sampleReady := by
  intro config far
  have hfit : ∀ n ∈ [sampleReady, far], Eligible (sampleStep "whisper" "step_a") n config 1 := by
    intro n hn
    simp only [List.mem_cons, List.not_mem_nil, or_false] at hn
    rcases hn with rfl | rfl <;> exact ⟨⟨true, "eligible"⟩, by decide +kernel, rfl⟩
  obtain ⟨d, hd⟩ := selectNodeForStep_exactFloat.2 fun n hn => by
    obtain ⟨r, hr, -⟩ := hfit n hn
    exact ⟨r, hr⟩
  refine ⟨d, hd, (priority_dominates _ config 1 _ ?_ hd).2.1 far (by simp) sampleReady (by simp)
    (hfit far (by simp)) (hfit _ (by simp)) 100 0 rfl rfl (by decide +kernel)⟩
  intro n hn
  simp only [List.mem_cons, List.not_mem_nil, or_false] at hn
  rcases hn with rfl | rfl <;>
    exact ⟨by decide +kernel, by decide +kernel, by decide, by decide, by decide⟩

end MediaOrchard
