/-
  One step's failure and the polling loop.

  * `raised c`: a call of the loop was answered by an exception; `Handled cs`: none
    was right behind another, so that no report of an exception raised;
  * `runs_executeClaimedStep`: an exception escapes a claimed step if and only if
    such a report raised;
  * `runs_pollLoop`: the loop goes on through every step that is contained, and a
    step that is not ends it.
-/
import MediaOrchard.Worker.Loop
import MediaOrchard.Proof.Allowlist
import Mathlib.Data.List.Chain

namespace MediaOrchard

open Effects Interleave

/-- A call of the loop with its answer. -/
abbrev LoopCall := Effects.Call LoopOp LoopOp.Answer Unit

/-- A complete run of a part of the loop: its calls and its end, whatever the calls
    were answered. -/
def Runs {α : Type} (p : LoopProg α) (cs : List LoopCall) (o : Except String α) : Prop :=
  Ends (fun _ _ _ _ => True) p () cs o ()

/-- The operation was answered by an exception. -/
def LoopOp.raises : (o : LoopOp) → o.Answer → Bool
  | .post _, .error _ => true
  | .collectMetrics, .error _ => true
  | .runStep _, .error _ => true
  | .sleep _, .error _ => true
  | _, _ => false

def raised (c : LoopCall) : Bool := c.op.raises c.ans

/-- The operation handles a claimed step: it runs it or reports on it. -/
def LoopOp.handles : LoopOp → Bool
  | .runStep _ => true
  | .post request =>
    match request.call with
    | .startStep _ _ | .completeStep _ _ | .failStep _ _ => true
    | _ => false
  | _ => false

/-- No call raised right behind one that raised: where an exception was reported, the
    report did not raise. -/
def Handled (cs : List LoopCall) : Prop := cs.IsChain fun c d => ¬ (raised c ∧ raised d)

theorem handled_nil : Handled [] := .nil

/-- A call that did not raise does not count. -/
theorem handled_cons {c : LoopCall} {cs : List LoopCall} (hc : raised c = false) :
    Handled (c :: cs) ↔ Handled cs := by
  cases cs <;> simp [Handled, hc]

/-- A call behind one that raised is the last one that may raise. -/
theorem handled_pair {c d : LoopCall} (hc : raised c) : Handled [c, d] ↔ ¬ raised d := by
  simp [Handled, hc]

/-! ## A claimed step -/

section
variable {worker : WorkerAgent} {step : Dict} {cs : List LoopCall} {o : Except String Unit}

/-- A step without an id or an epoch is not handled at all. -/
theorem runs_executeClaimedStep_none (hclaim : claimOf step = none)
    (hruns : Runs (WorkerProg.loop (executeClaimedStep worker step)) cs o) :
    cs = [] ∧ ∃ exc, o = .error exc := by
  unfold claimOf at hclaim
  unfold Runs executeClaimedStep at hruns
  cases hid : requiredStepStr step "id" with
  | error exc =>
    rw [hid] at hruns
    exact ⟨hruns.1, exc, hruns.2.1⟩
  | ok stepId =>
    cases hepoch : requiredStepInt step "assignment_epoch" with
    | error exc =>
      rw [hid, hepoch] at hruns
      exact ⟨hruns.1, exc, hruns.2.1⟩
    | ok epoch => simp [hid, hepoch] at hclaim

/-- The report of an exception, which ends the step. -/
theorem runs_failStep {stepId : String} {epoch : ℤ} {exc : String}
    (hruns : Runs (WorkerProg.loop (do let _ ← worker.failStep stepId epoch exc)) cs o) :
    ∃ c, cs = [c] ∧ c.op.handles ∧ (o = .ok () ↔ ¬ raised c) := by
  obtain ⟨r, ⟨⟩, cs, rfl, -, hruns⟩ := hruns
  cases r with
  | error text =>
    obtain ⟨rfl, rfl, -⟩ := hruns
    exact ⟨_, rfl, rfl, by simp [raised, LoopOp.raises]⟩
  | ok answer =>
    obtain ⟨rfl, rfl, -⟩ := hruns
    exact ⟨_, rfl, rfl, by simp [raised, LoopOp.raises]⟩

/-- A report of the result, behind which an exception is reported. -/
theorem runs_report (call : Call) {stepId : String} {epoch : ℤ}
    (hcall : LoopOp.handles (.post ⟨call, worker.headers⟩))
    (hruns : Runs (WorkerProg.loop (Client.tryCatch (do let _ ← worker.post call) fun exc => do
      let _ ← worker.failStep stepId epoch exc)) cs o) :
    (∀ c ∈ cs, c.op.handles) ∧ (o = .ok () ↔ Handled cs) := by
  obtain ⟨r, ⟨⟩, cs, rfl, -, hruns⟩ := hruns
  cases r with
  | error text =>
    obtain ⟨c, rfl, hhandles, ho⟩ := runs_failStep hruns
    exact ⟨List.forall_mem_cons.2 ⟨hcall, List.forall_mem_singleton.2 hhandles⟩,
      ho.trans (handled_pair rfl).symm⟩
  | ok answer =>
    obtain ⟨rfl, rfl, -⟩ := hruns
    exact ⟨by simp [hcall], by simp [Handled]⟩

theorem runs_executeClaimedStep {stepId : String} {epoch : ℤ}
    (hclaim : claimOf step = some (stepId, epoch))
    (hruns : Runs (WorkerProg.loop (executeClaimedStep worker step)) cs o) :
    (∀ c ∈ cs, c.op.handles) ∧ (o = .ok () ↔ Handled cs) := by
  obtain ⟨hid, hepoch⟩ := claimOf_eq_some.1 hclaim
  unfold Runs executeClaimedStep at hruns
  rw [hid, hepoch] at hruns
  obtain ⟨r, ⟨⟩, cs, rfl, -, hruns⟩ := hruns
  cases r with
  | error text =>
    obtain ⟨c, rfl, hhandles, ho⟩ := runs_failStep hruns
    exact ⟨List.forall_mem_cons.2 ⟨rfl, List.forall_mem_singleton.2 hhandles⟩,
      ho.trans (handled_pair rfl).symm⟩
  | ok answer =>
    obtain ⟨r, ⟨⟩, cs, rfl, -, hruns⟩ := hruns
    cases r with
    | error text =>
      obtain ⟨c, rfl, hhandles, ho⟩ := runs_failStep hruns
      refine ⟨?_, (ho.trans (handled_pair rfl).symm).trans (handled_cons (by rfl)).symm⟩
      exact List.forall_mem_cons.2 ⟨rfl, List.forall_mem_cons.2 ⟨rfl,
        List.forall_mem_singleton.2 hhandles⟩⟩
    | ok outputJson =>
      have hreport : (∀ c ∈ cs, c.op.handles) ∧ (o = .ok () ↔ Handled cs) := by
        change Runs (WorkerProg.loop (Client.tryCatch
          (if reportsFailure outputJson = true then _ else _) _)) cs o at hruns
        split_ifs at hruns
        · exact runs_report (.failStep stepId _) rfl hruns
        · exact runs_report (.completeStep stepId _) rfl hruns
      refine ⟨?_, ?_⟩
      · exact List.forall_mem_cons.2 ⟨rfl, List.forall_mem_cons.2 ⟨rfl, hreport.1⟩⟩
      · exact hreport.2.trans ((handled_cons (by rfl)).trans (handled_cons (by rfl))).symm

/-- **A claimed step is contained** if and only if it has an id and the report of its
    exception does not raise. -/
theorem runs_claimedStep {stepId : String} {epoch : ℤ} (hid : step.get? "id" = some (.str stepId))
    (hepoch : requiredStepInt step "assignment_epoch" = .ok epoch)
    (hruns : Runs (WorkerProg.loop (executeClaimedStep worker step)) cs o) :
    (∀ c ∈ cs, c.op.handles) ∧ (o = .ok () ↔ stepId ≠ "" ∧ Handled cs) := by
  by_cases hempty : stepId = ""
  · have hnone : claimOf step = none := by
      simp [claimOf, requiredStepStr, hid, hempty]
    obtain ⟨rfl, exc, rfl⟩ := runs_executeClaimedStep_none hnone hruns
    simp [hempty]
  · have hclaim : claimOf step = some (stepId, epoch) := by
      simp [claimOf, requiredStepStr, hid, hempty, hepoch]
    obtain ⟨hhandles, ho⟩ := runs_executeClaimedStep hclaim hruns
    exact ⟨hhandles, ho.trans (by simp [hempty])⟩

end

/-! ## The loop -/

/-- The step that the call claimed. -/
def claimedBy : (o : LoopOp) → o.Answer → Option Dict
  | .post ⟨.claimNext _, _⟩, .ok claimed => claimed
  | _, _ => none

/-- The steps that the calls claimed, in order. -/
def claimedSteps (cs : List LoopCall) : List Dict := cs.filterMap fun c => claimedBy c.op c.ans

/-- The call is a heartbeat. -/
def isHeartbeat (c : LoopCall) : Bool :=
  match c.op with
  | .post ⟨.heartbeatNode _ _, _⟩ => true
  | _ => false

/-- The call asks for the next step. -/
def isClaimNext (c : LoopCall) : Bool :=
  match c.op with
  | .post ⟨.claimNext _, _⟩ => true
  | _ => false

/-- Only calls that handle a claimed step raise, and a claimed step has a string id
    and an integer epoch. -/
structure Provided (cs : List LoopCall) : Prop where
  quiet : ∀ c ∈ cs, ¬ c.op.handles → raised c = false
  named : ∀ step ∈ claimedSteps cs, (∃ stepId, step.get? "id" = some (.str stepId)) ∧
    ∃ epoch, requiredStepInt step "assignment_epoch" = .ok epoch

/-- A step that is executed has an id that is not empty, and where an exception was
    reported, the report did not raise. -/
structure Contained (config : WorkerLoopConfig) (cs : List LoopCall) : Prop where
  named : config.executeClaimedSteps → ∀ step ∈ claimedSteps cs, step.get? "id" ≠ some (.str "")
  handled : Handled cs

theorem contained_nil (config : WorkerLoopConfig) : Contained config [] :=
  ⟨by simp [claimedSteps], handled_nil⟩

/-- The call of the pause between two polls. -/
def pauseCall (config : WorkerLoopConfig) : LoopCall :=
  ⟨.sleep config.claimIntervalSeconds, .ok (), (), ()⟩

theorem contained_pause {config : WorkerLoopConfig} {cs : List LoopCall} :
    Contained config (pauseCall config :: cs) ↔ Contained config cs := by
  have hhandled : Handled (pauseCall config :: cs) ↔ Handled cs := handled_cons rfl
  exact ⟨fun h => ⟨h.named, hhandled.1 h.handled⟩, fun h => ⟨h.named, hhandled.2 h.handled⟩⟩

theorem Provided.append {cs cs' : List LoopCall} (h : Provided (cs ++ cs')) :
    Provided cs ∧ Provided cs' := by
  have hsteps : claimedSteps (cs ++ cs') = claimedSteps cs ++ claimedSteps cs' :=
    List.filterMap_append
  refine ⟨⟨fun c hc => h.quiet c (List.mem_append_left _ hc), fun step hstep => ?_⟩,
    ⟨fun c hc => h.quiet c (List.mem_append_right _ hc), fun step hstep => ?_⟩⟩
  · exact h.named step (hsteps ▸ List.mem_append_left _ hstep)
  · exact h.named step (hsteps ▸ List.mem_append_right _ hstep)

theorem Provided.tail {c : LoopCall} {cs : List LoopCall} (h : Provided (c :: cs)) : Provided cs :=
  (show Provided ([c] ++ cs) from h).append.2

/-- What handles a step claims nothing and is no heartbeat. -/
theorem claimedSteps_of_handles {cs : List LoopCall} (h : ∀ c ∈ cs, c.op.handles) :
    claimedSteps cs = [] ∧ cs.countP isHeartbeat = 0 ∧ cs.countP isClaimNext = 0 := by
  have hone : ∀ c : LoopCall, c.op.handles → claimedBy c.op c.ans = none ∧ isHeartbeat c = false ∧
      isClaimNext c = false := by
    rintro ⟨o, ans, ⟨⟩, ⟨⟩⟩ hc
    cases o with
    | post request =>
      obtain ⟨call, headers⟩ := request
      cases call <;> first | exact ⟨rfl, rfl, rfl⟩ | cases hc
    | collectMetrics | runStep | sleep => exact ⟨rfl, rfl, rfl⟩
  refine ⟨List.filterMap_eq_nil_iff.2 fun c hc => (hone c (h c hc)).1, ?_, ?_⟩
  · exact List.countP_eq_zero.2 fun c hc => by simp [(hone c (h c hc)).2.1]
  · exact List.countP_eq_zero.2 fun c hc => by simp [(hone c (h c hc)).2.2]

/-- A part of a run that starts with a call that did not raise is handled on its own. -/
theorem handled_append {cs cs' : List LoopCall} (h : ∀ c ∈ cs'.head?, raised c = false) :
    Handled (cs ++ cs') ↔ Handled cs ∧ Handled cs' := by
  unfold Handled
  rw [List.isChain_append]
  refine ⟨fun ⟨h₁, h₂, _⟩ => ⟨h₁, h₂⟩, fun ⟨h₁, h₂⟩ => ⟨h₁, h₂, fun c _ d hd => ?_⟩⟩
  simp [h d hd]

section
variable {h : Host} {str : Json → String} {config : WorkerLoopConfig}

theorem runs_executeClaimed {claimed : Option Dict} {cs : List LoopCall} {o : Except String Unit}
    (hclaimed : ∀ step ∈ claimed, (∃ stepId, step.get? "id" = some (.str stepId)) ∧
      ∃ epoch, requiredStepInt step "assignment_epoch" = .ok epoch)
    (hruns : Runs (executeClaimed str config claimed) cs o) :
    (∀ c ∈ cs, c.op.handles) ∧ (o = .ok () ↔
      (config.executeClaimedSteps → ∀ step ∈ claimed, step.get? "id" ≠ some (.str "")) ∧
        Handled cs) := by
  unfold executeClaimed at hruns
  cases claimed with
  | none =>
    obtain ⟨rfl, rfl, -⟩ := hruns
    simp [handled_nil]
  | some step =>
    obtain ⟨⟨stepId, hid⟩, epoch, hepoch⟩ := hclaimed step rfl
    dsimp only at hruns
    split_ifs at hruns with hexecute
    · obtain ⟨hhandles, ho⟩ := runs_claimedStep hid hepoch hruns
      exact ⟨hhandles, ho.trans (by simp [hexecute, hid])⟩
    · obtain ⟨rfl, rfl, -⟩ := hruns
      simp [hexecute, handled_nil]

/-- What the loop is after a run of its part behind `polls` polls. -/
structure Polled (config : WorkerLoopConfig) (cs : List LoopCall) (polls : ℕ)
    (before : List Dict) (o : Except String (Option (List Dict))) : Prop where
  contained : Contained config cs → o = .ok (some (before ++ claimedSteps cs)) ∧
    cs.countP isHeartbeat = polls ∧ cs.countP isClaimNext = polls
  escaped : ¬ Contained config cs → ∃ exc, o = .error exc

/-- The calls of a poll that are not about the handling of a step. -/
def pollCalls (str : Json → String) (config : WorkerLoopConfig) (metrics : NodeHeartbeatRequest)
    (beat claimed : Option Dict) : List LoopCall :=
  let headers := (config.worker str).headers
  [⟨.collectMetrics, .ok metrics, (), ()⟩,
    ⟨.post ⟨.heartbeatNode config.nodeId metrics, headers⟩, .ok beat, (), ()⟩,
    ⟨.post ⟨.claimNext ⟨config.nodeId⟩, headers⟩, .ok claimed, (), ()⟩]

/-- One poll: its calls, the handling of what was claimed, and the rest of the loop. -/
theorem runs_poll {fuel polls : ℕ} {before : List Dict} {cs : List LoopCall}
    {o : Except String (Option (List Dict))} (hprovided : Provided cs)
    (hruns : Runs (pollLoop str config (fuel + 1) polls before) cs o) :
    ∃ metrics beat claimed handling rest,
      cs = pollCalls str config metrics beat claimed ++ (handling ++ rest) ∧
      ((∃ exc, o = .error exc ∧ rest = [] ∧
          Runs (executeClaimed str config claimed) handling (.error exc)) ∨
        (Runs (executeClaimed str config claimed) handling (.ok ()) ∧
          Runs (if config.stops (polls + 1) then pure (some (before ++ claimed.toList))
            else do
              pause config
              pollLoop str config fuel (polls + 1) (before ++ claimed.toList)) rest o)) := by
  unfold pollLoop at hruns
  obtain ⟨metrics, ⟨⟩, cs, rfl, -, hruns⟩ := hruns
  cases metrics with
  | error => cases hprovided.quiet _ List.mem_cons_self Bool.false_ne_true
  | ok metrics =>
    obtain ⟨beat, ⟨⟩, cs, rfl, -, hruns⟩ := hruns
    cases beat with
    | error =>
      cases hprovided.quiet _ (List.mem_cons_of_mem _ List.mem_cons_self) Bool.false_ne_true
    | ok beat =>
      obtain ⟨claimed, ⟨⟩, cs, rfl, -, hruns⟩ := hruns
      cases claimed with
      | error =>
        cases hprovided.quiet _
          (List.mem_cons_of_mem _ (List.mem_cons_of_mem _ List.mem_cons_self)) Bool.false_ne_true
      | ok claimed =>
        refine ⟨metrics, beat, claimed, ?_⟩
        change Runs ((executeClaimed str config claimed).bind fun _ => _) cs o at hruns
        rcases Ends.bind hruns with ⟨exc, ho, hexc⟩ | ⟨⟨⟩, ⟨⟩, handling, rest, rfl, hhandling, hrest⟩
        · exact ⟨cs, [], by rw [List.append_nil]; rfl, Or.inl ⟨exc, ho, rfl, hexc⟩⟩
        · exact ⟨handling, rest, rfl, Or.inr ⟨hhandling, hrest⟩⟩

section
variable (str config)

theorem claimedSteps_poll (metrics : NodeHeartbeatRequest) (beat claimed : Option Dict)
    {handling : List LoopCall} (rest : List LoopCall) (hhandling : ∀ c ∈ handling, c.op.handles) :
    claimedSteps (pollCalls str config metrics beat claimed ++ (handling ++ rest)) =
      claimed.toList ++ claimedSteps rest := by
  have hpoll : claimedSteps (pollCalls str config metrics beat claimed) = claimed.toList := by
    cases claimed <;> rfl
  unfold claimedSteps at hpoll ⊢
  rw [List.filterMap_append, List.filterMap_append, hpoll,
    show List.filterMap _ handling = [] from (claimedSteps_of_handles hhandling).1, List.nil_append]

theorem count_poll (metrics : NodeHeartbeatRequest) (beat claimed : Option Dict)
    {handling : List LoopCall} (rest : List LoopCall) (hhandling : ∀ c ∈ handling, c.op.handles) :
    (pollCalls str config metrics beat claimed ++ (handling ++ rest)).countP isHeartbeat =
        rest.countP isHeartbeat + 1 ∧
      (pollCalls str config metrics beat claimed ++ (handling ++ rest)).countP isClaimNext =
        rest.countP isClaimNext + 1 := by
  obtain ⟨-, hbeats, hclaims⟩ := claimedSteps_of_handles hhandling
  rw [List.countP_append, List.countP_append, hbeats, List.countP_append, List.countP_append,
    hclaims]
  have hpoll : (pollCalls str config metrics beat claimed).countP isHeartbeat = 1 ∧
      (pollCalls str config metrics beat claimed).countP isClaimNext = 1 := ⟨rfl, rfl⟩
  omega

/-- What is contained of a poll: the handling of its step, and the rest. -/
theorem contained_poll (metrics : NodeHeartbeatRequest) (beat claimed : Option Dict)
    {handling : List LoopCall} (rest : List LoopCall) (hhandling : ∀ c ∈ handling, c.op.handles)
    (hrest : ∀ c ∈ rest.head?, raised c = false) :
    Contained config (pollCalls str config metrics beat claimed ++ (handling ++ rest)) ↔
      ((config.executeClaimedSteps → ∀ step ∈ claimed, step.get? "id" ≠ some (.str "")) ∧
        Handled handling) ∧ Contained config rest := by
  have hhandled : Handled (pollCalls str config metrics beat claimed ++ (handling ++ rest)) ↔
      Handled handling ∧ Handled rest := by
    rw [← handled_append hrest]
    exact (handled_cons (by rfl)).trans ((handled_cons (by rfl)).trans (handled_cons (by rfl)))
  have hnamed : (∀ step ∈ claimedSteps (pollCalls str config metrics beat claimed ++
      (handling ++ rest)), step.get? "id" ≠ some (.str "")) ↔
        (∀ step ∈ claimed, step.get? "id" ≠ some (.str "")) ∧
          ∀ step ∈ claimedSteps rest, step.get? "id" ≠ some (.str "") := by
    rw [claimedSteps_poll str config metrics beat claimed rest hhandling]
    simp only [List.mem_append, Option.mem_toList, or_imp, forall_and]
    rfl
  constructor
  · intro hcontained
    obtain ⟨hhandling', hrest'⟩ := hhandled.1 hcontained.handled
    exact ⟨⟨fun hexecute => (hnamed.1 (hcontained.named hexecute)).1, hhandling'⟩,
      fun hexecute => (hnamed.1 (hcontained.named hexecute)).2, hrest'⟩
  · rintro ⟨⟨hnamed', hhandling'⟩, hcontained⟩
    exact ⟨fun hexecute => hnamed.2 ⟨hnamed' hexecute, hcontained.named hexecute⟩,
      hhandled.2 ⟨hhandling', hcontained.handled⟩⟩

end

theorem polled_end (before : List Dict) : Polled config [] 0 before (.ok (some before)) :=
  ⟨fun _ => by simp [claimedSteps], fun hnot => absurd (contained_nil config) hnot⟩

section
variable {polls : ℕ} {before : List Dict} {o : Except String (Option (List Dict))}
  {rest : List LoopCall}

theorem Polled.pause (hpolled : Polled config rest polls before o) :
    Polled config (pauseCall config :: rest) polls before o :=
  ⟨fun hcontained => hpolled.contained (contained_pause.1 hcontained),
    fun hnot => hpolled.escaped fun hcontained => hnot (contained_pause.2 hcontained)⟩

/-- A poll whose step is contained, before the rest of the loop. -/
theorem Polled.poll {metrics : NodeHeartbeatRequest} {beat claimed : Option Dict}
    {handling : List LoopCall}
    (hpolled : Polled config rest polls (before ++ claimed.toList) o)
    (hrest : ∀ c ∈ rest.head?, raised c = false) (hhandles : ∀ c ∈ handling, c.op.handles)
    (hgood : (config.executeClaimedSteps → ∀ step ∈ claimed, step.get? "id" ≠ some (.str "")) ∧
      Handled handling) :
    Polled config (pollCalls str config metrics beat claimed ++ (handling ++ rest)) (polls + 1)
      before o := by
  have hcontained := contained_poll str config metrics beat claimed rest hhandles hrest
  refine ⟨fun h => ?_, fun hnot => hpolled.escaped fun h => hnot (hcontained.2 ⟨hgood, h⟩)⟩
  obtain ⟨ho, hbeats, hclaims⟩ := hpolled.contained (hcontained.1 h).2
  obtain ⟨hbeats', hclaims'⟩ := count_poll str config metrics beat claimed rest hhandles
  rw [claimedSteps_poll str config metrics beat claimed rest hhandles, ho, hbeats', hclaims',
    hbeats, hclaims, List.append_assoc]
  exact ⟨rfl, rfl, rfl⟩

end

/-- Without `poll_once` the loop stops behind its last poll. -/
theorem stops_iff {N polls : ℕ} (honce : config.pollOnce = false)
    (hmax : config.maxPolls = some (N : ℤ)) : config.stops polls ↔ N ≤ polls := by
  simp [WorkerLoopConfig.stops, honce, hmax]

/-- **The loop**: contained steps leave it its polls, and another one ends it. -/
theorem runs_pollLoop {N : ℕ} (honce : config.pollOnce = false) (hmax : config.maxPolls = some (N : ℤ))
    {fuel polls : ℕ} {before : List Dict} {cs : List LoopCall}
    {o : Except String (Option (List Dict))} (hpolls : polls < N) (hfuel : N ≤ polls + fuel)
    (hprovided : Provided cs) (hruns : Runs (pollLoop str config fuel polls before) cs o) :
    Polled config cs (N - polls) before o := by
  induction fuel generalizing polls before cs with
  | zero => omega
  | succ fuel ih =>
    obtain ⟨metrics, beat, claimed, handling, rest, rfl, hcases⟩ := runs_poll hprovided hruns
    have hclaimed : ∀ step ∈ claimed, (∃ stepId, step.get? "id" = some (.str stepId)) ∧
        ∃ epoch, requiredStepInt step "assignment_epoch" = .ok epoch := by
      intro step hstep
      refine hprovided.append.1.named step ?_
      cases hstep
      exact List.mem_singleton_self step
    rcases hcases with ⟨exc, rfl, rfl, hexc⟩ | ⟨hdone, hrest⟩
    · -- an exception escapes the handling of the step
      obtain ⟨hhandles, ho⟩ := runs_executeClaimed hclaimed hexc
      refine ⟨fun hcontained => ?_, fun _ => ⟨exc, rfl⟩⟩
      have hgood := (contained_poll str config metrics beat claimed [] hhandles (by simp)).1 hcontained
      cases ho.2 hgood.1
    obtain ⟨hhandles, ho⟩ := runs_executeClaimed hclaimed hdone
    split_ifs at hrest with hstops <;> rw [stops_iff honce hmax] at hstops
    · -- the last poll
      obtain ⟨rfl, rfl, -⟩ := hrest
      rw [show N - polls = 0 + 1 by omega]
      exact (polled_end _).poll (by simp) hhandles (ho.1 rfl)
    · -- a pause and the next poll
      obtain ⟨paused, ⟨⟩, rest, rfl, -, hrest⟩ := hrest
      have hprovided' := hprovided.append.2.append.2
      cases paused with
      | error => cases hprovided'.quiet _ List.mem_cons_self Bool.false_ne_true
      | ok =>
        have hpolled := ih (by omega) (by omega) hprovided'.tail hrest
        rw [show N - polls = N - (polls + 1) + 1 by omega]
        exact hpolled.pause.poll (by simp [raised, LoopOp.raises, pauseCall]) hhandles (ho.1 rfl)

/-- `run_worker` starts with the registration. -/
theorem runs_runWorker {fuel : ℕ} {cs : List LoopCall} {o : Except String (Option (List Dict))}
    (hprovided : Provided cs) (hruns : Runs (runWorker h str config fuel) cs o) :
    ∃ c rest, cs = c :: rest ∧ raised c = false ∧ claimedSteps cs = claimedSteps rest ∧
      cs.countP isHeartbeat = rest.countP isHeartbeat ∧
      cs.countP isClaimNext = rest.countP isClaimNext ∧
      Runs (pollLoop str config fuel 0 []) rest o := by
  obtain ⟨registered, ⟨⟩, rest, rfl, -, hruns⟩ := hruns
  have hquiet := hprovided.quiet _ List.mem_cons_self Bool.false_ne_true
  cases registered with
  | error => cases hquiet
  | ok answer => exact ⟨_, rest, rfl, hquiet, rfl, rfl, rfl, hruns⟩

end

/-- **A step's failure does not stop the Worker, unless the report of it raises**: an exception
    escapes a claimed step if and only if its id is empty or the report of an exception raised; and
    a Worker of `N` polls returns what it claimed behind `N` heartbeats and `N` claims if and only
    if that happens in no step it executes. -/
theorem step_failures_contained (h : Host) (str : Json → String) (config : WorkerLoopConfig) :
    (∀ (step : Dict) (stepId : String) (epoch : ℤ) (cs : List LoopCall) (o : Except String Unit),
      step.get? "id" = some (.str stepId) →
      requiredStepInt step "assignment_epoch" = .ok epoch →
      Runs (WorkerProg.loop (executeClaimedStep (config.worker str) step)) cs o →
      (o = .ok () ↔ stepId ≠ "" ∧ Handled cs)) ∧
    ∀ (N fuel : ℕ) (cs : List LoopCall) (o : Except String (Option (List Dict))),
      1 ≤ N → N ≤ fuel → config.pollOnce = false → config.maxPolls = some (N : ℤ) →
      Runs (runWorker h str config fuel) cs o → Provided cs →
      (o = .ok (some (claimedSteps cs)) ∧ cs.countP isHeartbeat = N ∧ cs.countP isClaimNext = N ↔
        Contained config cs) := by
  refine ⟨fun step stepId epoch cs o hid hepoch hruns => (runs_claimedStep hid hepoch hruns).2,
    fun N fuel cs o hN hfuel honce hmax hruns hprovided => ?_⟩
  obtain ⟨c, rest, rfl, hc, hsteps, hbeats, hclaims, hrest⟩ := runs_runWorker hprovided hruns
  have hpolled := runs_pollLoop honce hmax (by omega) (by omega) hprovided.tail hrest
  have hcontained : Contained config (c :: rest) ↔ Contained config rest := by
    have hhandled : Handled (c :: rest) ↔ Handled rest := handled_cons hc
    refine ⟨fun hcs => ⟨fun hexecute => hsteps ▸ hcs.named hexecute, hhandled.1 hcs.handled⟩,
      fun hcs => ⟨fun hexecute => hsteps ▸ hcs.named hexecute, hhandled.2 hcs.handled⟩⟩
  rw [hcontained, hsteps, hbeats, hclaims]
  constructor
  · rintro ⟨ho, -, -⟩
    by_contra hnot
    obtain ⟨exc, he⟩ := hpolled.escaped hnot
    cases ho.symm.trans he
  · exact fun hcs => hpolled.contained hcs

/-! ## Samples -/

/-- A Worker of one poll. -/
def onePoll : WorkerLoopConfig :=
  { nodeId := "n1", nodeName := "node", sharedRoot := Posix.PurePath.ofString "/s", apiKey := "k",
    maxPolls := some 1 }

def sampleMetrics : NodeHeartbeatRequest :=
  { cpuPercent := 5, memoryPercent := 40, freeDiskGb := 100, activeJobs := 0, activeFfmpegJobs := 0,
    activeWhisperJobs := 0, thermalState := "nominal", onBattery := false }

/-- A claimed step. -/
def claimedSample : Dict := [("id", .str "s1"), ("assignment_epoch", .int 1)]

/-- The answer to a report on an assignment that has been superseded. -/
def superseded : String := "Controller request failed: 409 stale assignment epoch"

/-- A run of one poll whose claimed step could not be started; `answer` is what the report of
    that is answered. -/
def startRefused (answer : Except String (Option Dict)) : List LoopCall :=
  let headers := (onePoll.worker fun _ => "").headers
  let root := (plainHost.real (plainHost.expanduser onePoll.sharedRoot)).str
  ⟨.post ⟨.registerNode ⟨"n1", "node", root, 1, 1⟩, headers⟩, .ok none, (), ()⟩ ::
    (pollCalls (fun _ => "") onePoll sampleMetrics none (some claimedSample) ++
      [⟨.post ⟨.startStep "s1" ⟨1⟩, headers⟩, .error superseded, (), ()⟩,
        ⟨.post ⟨.failStep "s1" ⟨⟨1⟩, superseded⟩, headers⟩, answer, (), ()⟩])

theorem provided_startRefused (answer : Except String (Option Dict)) :
    Provided (startRefused answer) where
  quiet c hc hnot := by
    simp only [startRefused, pollCalls, List.cons_append, List.nil_append, List.mem_cons,
      List.not_mem_nil, or_false] at hc
    rcases hc with rfl | rfl | rfl | rfl | rfl | rfl
    all_goals first | rfl | exact absurd rfl hnot
  named step hstep := by
    cases List.mem_singleton.1 (show step ∈ [claimedSample] from hstep)
    exact ⟨⟨"s1", rfl⟩, 1, rfl⟩

/-- The run up to the report. -/
theorem runs_startRefused {answer : Except String (Option Dict)}
    {o : Except String (Option (List Dict))}
    (hend : o = match answer with
      | .ok _ => .ok (some [claimedSample])
      | .error exc => .error exc) :
    Runs (runWorker plainHost (fun _ => "") onePoll 1) (startRefused answer) o := by
  refine ⟨.ok none, (), _, rfl, trivial, ?_⟩
  refine ⟨.ok sampleMetrics, (), _, rfl, trivial, ?_⟩
  refine ⟨.ok none, (), _, rfl, trivial, ?_⟩
  refine ⟨.ok (some claimedSample), (), _, rfl, trivial, ?_⟩
  refine ⟨.error superseded, (), _, rfl, trivial, ?_⟩
  refine ⟨answer, (), _, rfl, trivial, ?_⟩
  cases answer with
  | ok => exact ⟨rfl, hend, rfl⟩
  | error => exact ⟨rfl, hend, rfl⟩

/-- **A refused report stops the Worker**, and so does a step with an empty id. -/
theorem step_failure_stops_worker :
    Runs (runWorker plainHost (fun _ => "") onePoll 1) (startRefused (.error superseded))
      (.error superseded) ∧
    Provided (startRefused (.error superseded)) ∧
    Runs (WorkerProg.loop (executeClaimedStep (onePoll.worker fun _ => "")
      [("id", .str ""), ("assignment_epoch", .int 1)])) [] (.error "claimed step is missing id") :=
  ⟨runs_startRefused rfl, provided_startRefused _, rfl, rfl, rfl⟩

/-- A report that is accepted leaves the Worker its poll. -/
theorem step_failures_contained_sample :
    Runs (runWorker plainHost (fun _ => "") onePoll 1) (startRefused (.ok none))
        (.ok (some [claimedSample])) ∧ Contained onePoll (startRefused (.ok none)) := by
  have hruns : Runs (runWorker plainHost (fun _ => "") onePoll 1) (startRefused (.ok none))
      (.ok (some [claimedSample])) := runs_startRefused rfl
  exact ⟨hruns, ((step_failures_contained plainHost (fun _ => "") onePoll).2 1 1 _ _ le_rfl le_rfl
    rfl rfl hruns (provided_startRefused _)).1 ⟨rfl, rfl, rfl⟩⟩

end MediaOrchard
