/-
  The Worker's execution of a claimed step (`execute_claimed_step` of
  `cli/runtime.py`, the requests of `worker/agent.py`).

  A Worker process is a client of the Controller: its calls are HTTP requests,
  and its one kind of local operation is the invocation of the step runner on
  the claimed step.  What the runner returns or raises is left open, and so is
  what `str()` makes of a value that is not a string (`WorkerAgent.str`).
-/
import MediaOrchard.Controller.Api
import MediaOrchard.Lib.Network

namespace MediaOrchard

open Interleave

/-- An HTTP request of the Worker: the endpoint with its parameters, and the
    headers. -/
structure HttpRequest where
  call : Call
  headers : Headers

/-- The programs of a Worker process; exceptions are their texts. -/
abbrev WorkerProg := Client HttpRequest (Option Response) Dict Dict String

/-- `WorkerAgent`, with the key of its transport. -/
structure WorkerAgent where
  nodeId : String
  apiKey : String
  str : Json → String

namespace WorkerAgent

/-- The headers `HttpWorkerTransport.post` sends. -/
def headers (worker : WorkerAgent) : Headers :=
  { authorization := some ("Bearer " ++ worker.apiKey)
    xMediaorchardNodeId := some worker.nodeId }

/-- `transport.post` -/
def post (worker : WorkerAgent) (call : Call) : WorkerProg (Option Response) :=
  Client.post ⟨call, worker.headers⟩

/-- `start_step` -/
def startStep (worker : WorkerAgent) (stepId : String) (assignmentEpoch : ℤ) :
    WorkerProg (Option Response) :=
  worker.post (.startStep stepId ⟨assignmentEpoch⟩)

/-- `complete_step` -/
def completeStep (worker : WorkerAgent) (stepId : String) (assignmentEpoch : ℤ)
    (outputJson : Dict) : WorkerProg (Option Response) :=
  worker.post (.completeStep stepId ⟨⟨assignmentEpoch⟩, outputJson⟩)

/-- `fail_step` -/
def failStep (worker : WorkerAgent) (stepId : String) (assignmentEpoch : ℤ)
    (errorMessage : String) : WorkerProg (Option Response) :=
  worker.post (.failStep stepId ⟨⟨assignmentEpoch⟩, errorMessage⟩)

/-- `str(value)` -/
def text (worker : WorkerAgent) : Json → String
  | .str s => s
  | v => worker.str v

end WorkerAgent

/-- `_required_step_str` -/
def requiredStepStr (step : Dict) (key : String) : Except String String :=
  match step.get? key with
  | some (.str value) =>
    if value = "" then .error ("claimed step is missing " ++ key) else .ok value
  | _ => .error ("claimed step is missing " ++ key)

/-- `_required_step_int`; a `bool` is an `int`. -/
def requiredStepInt (step : Dict) (key : String) : Except String ℤ :=
  match step.get? key with
  | some (.int value) => .ok value
  | some (.bool value) => .ok (if value then 1 else 0)
  | _ => .error ("claimed step is missing integer " ++ key)

/-- `output_json.get("status") == "failed"` -/
def reportsFailure (outputJson : Dict) : Bool :=
  match outputJson.get? "status" with
  | some (.str status) => status = "failed"
  | _ => false

/-- `str(output_json.get("error_message") or "step failed")` -/
def WorkerAgent.failureText (worker : WorkerAgent) (outputJson : Dict) : String :=
  match outputJson.get? "error_message" with
  | some v => if v.truthy then worker.text v else "step failed"
  | none => "step failed"

/-- `execute_claimed_step` -/
def executeClaimedStep (worker : WorkerAgent) (step : Dict) : WorkerProg Unit := do
  let stepId ← Client.liftExcept (requiredStepStr step "id")
  let assignmentEpoch ← Client.liftExcept (requiredStepInt step "assignment_epoch")
  Client.tryCatch
    (do
      let _ ← worker.startStep stepId assignmentEpoch
      let outputJson ← Client.perform step
      if reportsFailure outputJson then
        let _ ← worker.failStep stepId assignmentEpoch (worker.failureText outputJson)
      else
        let _ ← worker.completeStep stepId assignmentEpoch outputJson)
    fun exc => do
      let _ ← worker.failStep stepId assignmentEpoch exc

/-! ## The system -/

/-- The body of an error response. -/
def HttpError.body (e : HttpError) : String :=
  if e = internalError then e.detail else "\x7b\"detail\":\"" ++ e.detail ++ "\"\x7d"

/-- What `HttpWorkerTransport.post` returns or raises. -/
def transportAnswer : Except HttpError Response → Except String (Option Response)
  | .ok .noContent => .ok none
  | .ok (.nodes _) | .ok (.jobs _) => .error "Controller response must be a JSON object"
  | .ok r => .ok (some r)
  | .error e =>
    .error ("Controller request failed: " ++ toString e.status ++ " " ++ e.body)

/-- A Controller and any number of Worker processes, each executing some claimed
    step.  Every request but `complete` may also come from elsewhere. -/
def App.system (app : App) : System app.controller HttpRequest (Option Response) Dict Dict String
    Ambient (WorkerAgent × Dict) where
  program x := executeClaimedStep x.1 x.2
  wire b env := ⟨b.call, b.headers, env⟩
  answer := transportAnswer
  foreign r := match r.call with
    | .completeStep _ _ => false
    | _ => true

/-- The step and the epoch a claimed step names. -/
def claimOf (step : Dict) : Option (String × ℤ) :=
  match requiredStepStr step "id", requiredStepInt step "assignment_epoch" with
  | .ok stepId, .ok assignmentEpoch => some (stepId, assignmentEpoch)
  | _, _ => none

theorem claimOf_eq_some {step : Dict} {k : String} {e : ℤ} : claimOf step = some (k, e) ↔
    requiredStepStr step "id" = .ok k ∧ requiredStepInt step "assignment_epoch" = .ok e := by
  unfold claimOf
  constructor
  · intro h
    split at h
    next hid hepoch =>
      cases h
      exact ⟨hid, hepoch⟩
    next => cases h
  · rintro ⟨hid, hepoch⟩
    rw [hid, hepoch]

end MediaOrchard
