/-
  The command line and a Controller at work (`jobs`, `nodes` and `submit` of `cli/main.py`).

  The Controller handles other requests as well, before, between and after the operations of
  a command.  A request of the command may get lost, and so may its answer.

  * `Job.Carried`, `Node.Carried`: rows as JSON, as far as the command line reads them;
  * `Returned`: what `_request` returns or raises;
  * `App.desk`: what the operations of a command are answered.
-/
import MediaOrchard.Cli.Main
import MediaOrchard.Worker.Attempts

namespace MediaOrchard

open Interleave Effects

/-! ## Rows as JSON -/

/-- The text of a `JobStatus` member. -/
def JobStatus.value : JobStatus → String
  | created => "created"
  | planning => "planning"
  | waitingApproval => "waiting_approval"
  | queued => "queued"
  | running => "running"
  | completed => "completed"
  | failed => "failed"
  | cancelled => "cancelled"
  | retrying => "retrying"

/-- The text of a `NodeStatus` member. -/
def NodeStatus.value : NodeStatus → String
  | online => "online"
  | offline => "offline"
  | cooldown => "cooldown"

/-- The JSON object is the row of a job. -/
structure Job.Carried (j : Job) (d : Dict) : Prop where
  id : Dict.get? d "id" = some (.str j.id)
  status : Dict.get? d "status" = some (.str j.status.value)
  goalType : Dict.get? d "goal_type" = some (.str j.goalType)
  priority : Dict.get? d "priority" = some (.int j.priority)

/-- The JSON object is the row of a node. -/
structure Node.Carried (n : Node) (d : Dict) : Prop where
  id : Dict.get? d "id" = some (.str n.id)
  status : Dict.get? d "status" = some (.str n.status.value)
  cpuPercent : Dict.get? d "cpu_percent" = some (.float n.cpuPercent)
  host : Dict.get? d "host" = some ((n.host.map Json.str).getD .null)

/-- The JSON value is the body of the response; none is an empty body. -/
def Response.Sent : Response → Option Json → Prop
  | nodes ns, v => ∃ ds, v = some (.arr (ds.map .obj)) ∧ List.Forall₂ Node.Carried ns ds
  | node n, v => ∃ d, v = some (.obj d) ∧ n.Carried d
  | jobs js, v => ∃ ds, v = some (.arr (ds.map .obj)) ∧ List.Forall₂ Job.Carried js ds
  | job j, v => ∃ d, v = some (.obj d) ∧ j.Carried d
  | step x, v => ∃ d, v = some (.obj d) ∧ x.Carried d
  | noContent, v => v = none

/-- What `_request` returns or raises. -/
def Returned : Except HttpError Response → Except String (Option Json) → Prop
  | .ok r, answer => ∃ v, answer = .ok v ∧ r.Sent v
  | .error e, answer =>
    answer = .error ("Controller request failed: " ++ toString e.status ++ " " ++ e.body)

/-! ## Commands -/

/-- What an operation of a command is answered by a Controller at work. -/
def App.desk (app : App) : Sem CliOp CliOp.Answer (Conf Db HttpError Response Request)
  | .request q, c, answer, c' => ∃ tr, app.controller.Run c tr c' ∧
      ((∃ exc, answer = .error exc) ∨
        ∃ i env o, c.procs.length ≤ i ∧
          c'.procs[i]? = some (⟨q.call, q.headers, env⟩, Service.done o) ∧ Returned o answer)
  | _, c, _, c' => ∃ tr, app.controller.Run c tr c'

end MediaOrchard
