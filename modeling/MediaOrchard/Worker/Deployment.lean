/-
  One Worker and its Controller.

  The polling loop (`run_worker`) runs against the Controller's application: its
  requests are handled one at a time, and clients may submit jobs and look at rows
  before any of its operations.  No message is lost; the metrics and the step
  runner are left open.

  * `Deployment`: the Controller and what surrounds it;
  * `Deployment.sem`: what an operation of the loop is answered, and the database
    after it;
  * `Deployment.History`: the databases reached by submissions and by sessions of one
    Worker, one after the other.
-/
import MediaOrchard.Worker.Loop
import MediaOrchard.Worker.Attempts
import Mathlib.Logic.Relation

namespace MediaOrchard

open Keyed Interleave Posix Effects

/-- A Controller, and what requests take from the interpreter, what the metrics are and what
    the step runner may return or raise. -/
structure Deployment where
  app : App
  ambient : Ambient → Prop
  metrics : NodeHeartbeatRequest → Prop
  runner : Dict → Except String Dict → Prop

/-! ## Clients -/

/-- The requests of `submit`, `jobs` and `nodes`, and of the endpoints that read one row. -/
def Call.fromClient : Call → Bool
  | createJob _ | listJobs _ _ | listNodes _ _ | getJob _ | getNode _ => true
  | _ => false

namespace Deployment
variable (D : Deployment)

/-- A request of a client is handled. -/
inductive Submits (db : Db) : Db → Prop
  | client {r : Request} (hc : r.call.fromClient) (henv : D.ambient r.ambient) :
    Submits db ((D.app.handle r).exec db).2

/-- Any number of requests of clients are handled. -/
abbrev Arrives : Db → Db → Prop := Relation.ReflTransGen D.Submits

end Deployment

/-! ## The operations of the loop -/

/-- The JSON object that carries a row: the columns that the Worker reads. -/
def Response.Carried : Response → Dict → Prop
  | step x, d => x.Carried d ∧ Dict.get? d "assignment_epoch" = some (.int x.assignmentEpoch)
  | _, _ => True

/-- The answer of the transport, with the row as JSON. -/
def Delivered : Except String (Option Response) → Except String (Option Dict) → Prop
  | .error exc, answer => answer = .error exc
  | .ok none, answer => answer = .ok none
  | .ok (some r), answer => ∃ d, answer = .ok (some d) ∧ r.Carried d

namespace Deployment
variable (D : Deployment)

/-- What an operation is answered, and the database after it. -/
def Serves : Sem LoopOp LoopOp.Answer Db
  | .post request, db, answer, db' => ∃ env o, D.ambient env ∧
      (D.app.handle ⟨request.call, request.headers, env⟩).exec db = (o, db') ∧
      Delivered (transportAnswer o) answer
  | .collectMetrics, db, answer, db' => (∃ metrics, D.metrics metrics ∧ answer = .ok metrics) ∧
      db' = db
  | .runStep step, db, answer, db' => D.runner step answer ∧ db' = db
  | .sleep _, db, answer, db' => answer = .ok () ∧ db' = db

/-- The same, behind the requests of clients. -/
def sem : Sem LoopOp LoopOp.Answer Db := fun o db answer db' =>
  ∃ db₁, D.Arrives db db₁ ∧ D.Serves o db₁ answer db'

/-- Every operation is answered. -/
structure Live : Prop where
  ambient : ∃ env, D.ambient env
  metrics : ∃ metrics, D.metrics metrics
  runner : ∀ step, ∃ answer, D.runner step answer

/-! ## Sessions -/

/-- The Worker executes what it claims, the Controller lets it in and takes its shared root for
    its own, its metrics stay within the limits of the scheduler, and the priorities are small
    enough for floats. -/
structure Fit (h : Host) (config : WorkerLoopConfig) : Prop where
  executes : config.executeClaimedSteps
  named : config.nodeId ≠ ""
  key : verifyApiKey D.app.sha256Hex config.apiKey D.app.apiKeyHash = .ok true
  root : ∀ env, D.ambient env → env.fs.resolve D.app.sharedRoot.str = D.app.sharedRoot ∧
    (validateSharedRoot env.fs (h.real (h.expanduser config.sharedRoot)).str
      D.app.sharedRoot.str).ok
  valid : ∀ m, D.metrics m → m.invalid = []
  cpu : ∀ m, D.metrics m → m.cpuPercent ≤ D.app.schedulerConfig.maxCpuPercent
  memory : ∀ m, D.metrics m → m.memoryPercent ≤ D.app.schedulerConfig.maxMemoryPercent
  disk : ∀ m, D.metrics m → D.app.schedulerConfig.minFreeDiskGb ≤ m.freeDiskGb
  thermal : ∀ m, D.metrics m → m.thermalState ∉ ["serious", "critical"]
  priorities : ∀ kv ∈ D.app.nodePriorities, |kv.2| < 2 ^ 1024 - 2 ^ 970

/-- The databases reached from the empty one by requests of clients and by sessions of the
    Worker `nodeId`, which may run on different hosts and for any number of polls. -/
inductive History (str : Json → String) (nodeId : String) : Db → Prop
  | empty : History str nodeId Db.empty
  | client {db db'} : History str nodeId db → D.Submits db db' → History str nodeId db'
  | session {db db' h config fuel cs o} : History str nodeId db → D.Fit h config →
      config.nodeId = nodeId → Ends D.sem (runWorker h str config fuel) db cs o db' →
      History str nodeId db'

end Deployment

end MediaOrchard
