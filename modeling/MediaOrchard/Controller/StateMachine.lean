/-
  The step state machine (`controller/runtime/state_machine.py`).

  `LegalStepTransitions` is the transition table; `assignStep` and
  `recoverTimedOutStep` are the two operations that start and end an
  assignment, each raising `assignment_epoch` by one.
-/
import MediaOrchard.Controller.Models

namespace MediaOrchard

/-- `TransitionError`, with its text. -/
structure TransitionError where
  detail : String
  deriving DecidableEq, Repr

/-- `LEGAL_STEP_TRANSITIONS` -/
def legalStepTransitions : StepStatus → List StepStatus
  | .pending => [.queued, .skipped, .cancelled]
  | .queued => [.assigned, .cancelled]
  | .assigned => [.running, .queued, .failed, .cancelled]
  | .running => [.completed, .failed, .cancelled]
  | .failed => [.queued]
  | .skipped => []
  | .cancelled => []
  | .completed => []

/-- `transition_step` -/
def transitionStep (current target : StepStatus) : Except TransitionError StepStatus :=
  if target ∉ legalStepTransitions current then
    .error ⟨"invalid step transition: " ++ current.value ++ " -> " ++ target.value⟩
  else .ok target

/-- `assign_step` -/
def assignStep (step : Step) (nodeId : String) (now : Instant) : Except TransitionError Step := do
  let status ← transitionStep step.status .assigned
  return { step with
    status := status
    assignedNodeId := some nodeId
    assignedAt := some now
    assignmentEpoch := step.assignmentEpoch + 1 }

/-- `validate_assignment_epoch` -/
def validateAssignmentEpoch (step : Step) (assignmentEpoch : ℤ) : Except TransitionError Unit :=
  if step.assignmentEpoch ≠ assignmentEpoch then
    .error ⟨"stale assignment epoch: expected " ++ toString step.assignmentEpoch ++ ", got " ++
      toString assignmentEpoch⟩
  else .ok ()

/-- `recover_timed_out_step` -/
def recoverTimedOutStep (step : Step) : Except TransitionError Step :=
  if step.status = .assigned then do
    let status ← transitionStep step.status .queued
    return { step with
      status := status
      assignedNodeId := none
      assignedAt := none
      errorMessage := some "worker_heartbeat_timeout"
      assignmentEpoch := step.assignmentEpoch + 1 }
  else if step.status = .running then do
    let step := { step with
      errorMessage := some "worker_heartbeat_timeout"
      assignedNodeId := none
      assignedAt := none
      retryCount := step.retryCount + 1
      assignmentEpoch := step.assignmentEpoch + 1 }
    let status ← transitionStep step.status .failed
    let step := { step with status := status }
    if step.retryCount ≤ step.maxRetries then
      let status ← transitionStep step.status .queued
      return { step with status := status }
    else return step
  else .error ⟨"cannot recover timed-out step from " ++ step.status.value⟩

/-! ## What the operations compute -/

theorem transitionStep_ok {current target next : StepStatus} :
    transitionStep current target = .ok next ↔
      target ∈ legalStepTransitions current ∧ next = target := by
  unfold transitionStep
  split_ifs with h <;> simp [h, eq_comm]

/-- `assign_step` succeeds exactly on queued steps. -/
theorem assignStep_ok {step step' : Step} {nodeId : String} {now : Instant} :
    assignStep step nodeId now = .ok step' ↔ step.status = .queued ∧ step' = { step with
      status := .assigned
      assignedNodeId := some nodeId
      assignedAt := some now
      assignmentEpoch := step.assignmentEpoch + 1 } := by
  unfold assignStep transitionStep
  cases h : step.status <;>
    simp [legalStepTransitions, eq_comm, bind, Except.bind, pure, Except.pure]

theorem validateAssignmentEpoch_ok {step : Step} {e : ℤ} {u : Unit} :
    validateAssignmentEpoch step e = .ok u ↔ step.assignmentEpoch = e := by
  unfold validateAssignmentEpoch
  split_ifs with h <;> simp_all

/-- The row a timed-out step becomes: back to the queue from `assigned`, and
    from `running` while retries are left, else failed. -/
def Step.recovered (step : Step) : Step :=
  if step.status = .assigned then { step with
    status := .queued
    assignedNodeId := none
    assignedAt := none
    errorMessage := some "worker_heartbeat_timeout"
    assignmentEpoch := step.assignmentEpoch + 1 }
  else { step with
    status := if step.retryCount + 1 ≤ step.maxRetries then .queued else .failed
    assignedNodeId := none
    assignedAt := none
    errorMessage := some "worker_heartbeat_timeout"
    retryCount := step.retryCount + 1
    assignmentEpoch := step.assignmentEpoch + 1 }

/-- `recover_timed_out_step` succeeds exactly on assigned and running steps. -/
theorem recoverTimedOutStep_ok {step step' : Step} :
    recoverTimedOutStep step = .ok step' ↔
      (step.status = .assigned ∨ step.status = .running) ∧ step' = step.recovered := by
  unfold recoverTimedOutStep Step.recovered transitionStep
  cases h : step.status
  case running =>
    by_cases hr : step.retryCount + 1 ≤ step.maxRetries <;>
      simp [hr, legalStepTransitions, eq_comm, bind, Except.bind, pure, Except.pure]
  all_goals simp [legalStepTransitions, eq_comm, bind, Except.bind, pure, Except.pure]

end MediaOrchard
