/-
  The endpoints of the Controller (`controller/main.py`).

  A handler is a program of database actions (`Prog Db`): a `read` is one
  `SELECT`, an `atomic` action is a statement together with the commit (or
  rollback) that follows it.  Between two actions of a handler other handlers
  may commit.  A heartbeat's flush, scheduling pass and commit hold the write
  lock throughout and are one action.

  What a handler takes from the interpreter (`Ambient`) is an input of its
  request: the successive values of `datetime.now(UTC)`, the digits of
  `uuid4()`, the client's address and the file system.
-/
import MediaOrchard.Controller.Scheduling
import MediaOrchard.Shared.Access
import MediaOrchard.Lib.Service

namespace MediaOrchard

open Keyed Interleave

/-! ## Requests and responses -/

/-- `HTTPException` -/
structure HttpError where
  status : ℕ
  detail : String
  deriving DecidableEq, Repr

/-- An exception no handler catches. -/
def internalError : HttpError := ⟨500, "Internal Server Error"⟩

structure NodeRegisterRequest where
  nodeId : String
  name : String
  sharedRoot : String
  maxFfmpegJobs : ℤ := 1
  maxWhisperJobs : ℤ := 1

structure NodeHeartbeatRequest where
  cpuPercent : ℚ
  memoryPercent : ℚ
  freeDiskGb : ℚ
  activeJobs : ℤ
  activeFfmpegJobs : ℤ
  activeWhisperJobs : ℤ
  thermalState : String
  onBattery : Bool

structure JobCreateRequest where
  goalType : String
  inputFile : String
  outputs : List String
  language : Option String := none
  quality : String := "standard"
  priority : ℤ := 5
  userRequest : Option String := none

structure StepEpochRequest where
  assignmentEpoch : ℤ

structure StepClaimNextRequest where
  nodeId : String

structure StepProgressRequest extends StepEpochRequest where
  percent : Option ℚ := none
  message : Option String := none

structure StepCompleteRequest extends StepEpochRequest where
  outputJson : Dict := []

structure StepFailRequest extends StepEpochRequest where
  errorMessage : String

/-- The headers the endpoints read. -/
structure Headers where
  authorization : Option String := none
  xMediaorchardKey : Option String := none
  xMediaorchardNodeId : Option String := none

/-- What a handler takes from the interpreter. -/
structure Ambient where
  clock : ℕ → Instant
  jobHex : String
  planHex : String
  stepHex : String
  clientHost : Option String
  fs : FileSystem

/-- The endpoints with their parameters. -/
inductive Call where
  | listNodes (limit offset : ℤ)
  | getNode (nodeId : String)
  | registerNode (body : NodeRegisterRequest)
  | heartbeatNode (nodeId : String) (body : NodeHeartbeatRequest)
  | createJob (body : JobCreateRequest)
  | listJobs (limit offset : ℤ)
  | getJob (jobId : String)
  | claimNext (body : StepClaimNextRequest)
  | startStep (stepId : String) (body : StepEpochRequest)
  | progressStep (stepId : String) (body : StepProgressRequest)
  | completeStep (stepId : String) (body : StepCompleteRequest)
  | failStep (stepId : String) (body : StepFailRequest)
  | claimStep (stepId : String) (body : StepEpochRequest)

structure Request where
  call : Call
  headers : Headers
  ambient : Ambient

inductive Response where
  | nodes (ns : List Node)
  | node (n : Node)
  | jobs (js : List Job)
  | job (j : Job)
  | step (s : Step)
  | noContent

/-- The state of the application that `create_app` sets up. -/
structure App where
  sha256Hex : Sha256
  apiKeyHash : String
  sharedRoot : ResolvedPath
  nodePriorities : List (String × ℤ) := []

/-- The handlers' programs. -/
abbrev Handler := Prog Db HttpError

open Prog (read atomic)

/-! ## Dependencies -/

/-- `authorization.split(" ", 1)[1]` of a header that starts with `bearer `, in
    any case. -/
def bearerToken? (authorization : String) : Option String :=
  let cs := authorization.toList
  if (cs.take 7).map Char.toLower = "bearer ".toList then some (String.ofList (cs.drop 7))
  else none

theorem bearerToken?_bearer (key : String) : bearerToken? ("Bearer " ++ key) = some key := by
  have hbearer : ("Bearer " ++ key).toList = "Bearer ".toList ++ key.toList := String.toList_append
  have hlength : "Bearer ".toList.length = 7 := by decide
  unfold bearerToken?
  dsimp only
  rw [hbearer, List.take_left' hlength, List.drop_left' hlength, if_pos (by decide),
    String.ofList_toList]

/-- `require_worker_auth` -/
def requireWorkerAuth (app : App) (h : Headers) : Handler Unit :=
  let rawKey := match h.authorization.bind bearerToken? with
    | some token => some token
    | none => h.xMediaorchardKey
  match verifyApiKey app.sha256Hex (rawKey.getD "") app.apiKeyHash with
  | .error _ => .throw internalError
  | .ok false => .throw ⟨401, "invalid worker api key"⟩
  | .ok true => .ret ()

/-- The key that a request presents: a bearer token goes before the other header. -/
def Headers.key (h : Headers) : String :=
  (match h.authorization.bind bearerToken? with
    | some token => some token
    | none => h.xMediaorchardKey).getD ""

/-- The dependency answers as the comparison of the hashes does. -/
theorem requireWorkerAuth_eq (app : App) (h : Headers) :
    (verifyApiKey app.sha256Hex h.key app.apiKeyHash = .ok true ∧
        requireWorkerAuth app h = .ret ()) ∨
      (verifyApiKey app.sha256Hex h.key app.apiKeyHash = .ok false ∧
        requireWorkerAuth app h = .throw ⟨401, "invalid worker api key"⟩) ∨
      ∃ e, verifyApiKey app.sha256Hex h.key app.apiKeyHash = .error e ∧
        requireWorkerAuth app h = .throw internalError := by
  unfold requireWorkerAuth
  dsimp only
  split
  · rename_i e hv
    exact Or.inr (Or.inr ⟨e, hv, rfl⟩)
  · rename_i hv
    exact Or.inr (Or.inl ⟨hv, rfl⟩)
  · rename_i hv
    exact Or.inl ⟨hv, rfl⟩

/-- `require_worker_node_id` -/
def requireWorkerNodeId (h : Headers) : Handler String :=
  match h.xMediaorchardNodeId with
  | none => .throw ⟨403, "missing worker node id"⟩
  | some nodeId => if nodeId = "" then .throw ⟨403, "missing worker node id"⟩ else .ret nodeId

/-- The `Field(ge=0)` constraints of `NodeHeartbeatRequest`: the fields that
    violate theirs. -/
def NodeHeartbeatRequest.invalid (body : NodeHeartbeatRequest) : List String :=
  [("cpu_percent", decide (body.cpuPercent < 0)),
    ("memory_percent", decide (body.memoryPercent < 0)),
    ("free_disk_gb", decide (body.freeDiskGb < 0)), ("active_jobs", decide (body.activeJobs < 0)),
    ("active_ffmpeg_jobs", decide (body.activeFfmpegJobs < 0)),
    ("active_whisper_jobs", decide (body.activeWhisperJobs < 0))].filterMap
    fun f => if f.2 then some f.1 else none

/-- The `Field(ge=0, le=100)` constraint of `StepProgressRequest`. -/
def StepProgressRequest.invalid (body : StepProgressRequest) : List String :=
  match body.percent with
  | none => []
  | some p => if p < 0 ∨ p > 100 then ["percent"] else []

/-- FastAPI's answer to a body with invalid fields. -/
def requireValid (fields : List String) : Handler Unit :=
  if fields = [] then .ret () else .throw ⟨422, "invalid body: " ++ ", ".intercalate fields⟩

/-! ## Nodes -/

/-- `offset(offset).limit(limit)`: SQLite reads a negative limit as none. -/
def page {α : Type} (limit offset : ℤ) (rows : List α) : List α :=
  if limit < 0 then rows.drop offset.toNat else (rows.drop offset.toNat).take limit.toNat

def listNodes (limit offset : ℤ) : Handler (List Node) :=
  read fun db => page limit offset db.nodes.rows

/-- The node with key `nodeId`, or 404. -/
def getNode (nodeId : String) : Handler Node := do
  match ← read fun db => db.nodes.get? nodeId with
  | none => .throw ⟨404, "node not found"⟩
  | some node => return node

/-- `session.refresh(node)` -/
def refreshNode (nodeId : String) : Handler Node := do
  match ← read fun db => db.nodes.get? nodeId with
  | none => .throw internalError
  | some node => return node

/-- The columns `register_node` sets. -/
def Node.registered (node : Node) (body : NodeRegisterRequest) (host : Option String)
    (workerRoot : ResolvedPath) (now : Instant) : Node :=
  { node with
    name := body.name
    host := host
    status := .online
    sharedRoot := workerRoot.str
    maxFfmpegJobs := body.maxFfmpegJobs
    maxWhisperJobs := body.maxWhisperJobs
    updatedAt := now }

/-- Flush the changes of one node object and commit. -/
def commitNode (old new : Node) : Handler Unit :=
  atomic fun db => ((), { db with
    nodes := db.nodes.update (fun r => if r.id = old.id then Node.flush old new r else r)
      fun r => by split_ifs <;> rfl })

/-- Insert a node and commit; `false` if its id is taken by then. -/
def insertNode (node : Node) : Handler Bool :=
  atomic fun db => match db.nodes.insert? node with
    | none => (false, db)
    | some nodes => (true, { db with nodes := nodes })

/-- `register_node` -/
def registerNode (app : App) (env : Ambient) (body : NodeRegisterRequest) : Handler Node := do
  let sharedCheck := validateSharedRoot env.fs body.sharedRoot app.sharedRoot.str
  if !sharedCheck.ok then .throw ⟨422, sharedCheck.reason⟩
  else
    match ← read fun db => db.nodes.get? body.nodeId with
    | some node =>
      commitNode node (node.registered body env.clientHost sharedCheck.workerRoot (env.clock 0))
      refreshNode body.nodeId
    | none =>
      let node : Node :=
        { id := body.nodeId, name := body.name, sharedRoot := sharedCheck.workerRoot.str,
          createdAt := env.clock 0, updatedAt := env.clock 1 }
      let inserted ← insertNode
        (node.registered body env.clientHost sharedCheck.workerRoot (env.clock 2))
      if !inserted then .throw internalError else refreshNode body.nodeId

/-- The columns `heartbeat_node` sets. -/
def Node.heartbeat (node : Node) (body : NodeHeartbeatRequest) (now updatedAt : Instant) : Node :=
  { node with
    cpuPercent := body.cpuPercent
    memoryPercent := body.memoryPercent
    freeDiskGb := body.freeDiskGb
    activeJobs := body.activeJobs
    activeFfmpegJobs := body.activeFfmpegJobs
    activeWhisperJobs := body.activeWhisperJobs
    thermalState := body.thermalState
    onBattery := body.onBattery
    lastHeartbeatAt := some now
    updatedAt := updatedAt }

/-- The queued steps, by id. -/
def queuedSteps (db : Db) : List Step :=
  (db.steps.select fun s => s.status = .queued).insertionSort fun a b => a.id ≤ b.id

/-- The configuration `schedule_queued_steps` builds. -/
def App.schedulerConfig (app : App) : SchedulerConfig :=
  { sharedRoot := app.sharedRoot.str, nodePriorities := app.nodePriorities }

/-- The nodes as the heartbeat's session sees them: its own node is the object
    it holds, the others are read. -/
def sessionNodes (db : Db) (own : Node) : List Node :=
  db.nodes.rows.map fun r => if r.id = own.id then own else r

/-- `schedule_queued_steps`: the steps and nodes as the pass leaves them. -/
def scheduleQueuedSteps (app : App) (now : Instant) (own : Node) (db : Db) :
    Except SchedulerExn (List Step × List Node) :=
  if (queuedSteps db).isEmpty then .ok ([], sessionNodes db own)
  else scheduleLoop priorityFloat app.schedulerConfig now (queuedSteps db) (sessionNodes db own)

/-- The row of a step after the flush of the pass. -/
def flushStep (steps : List Step) (r : Step) : Step :=
  (steps.find? fun s => s.id = r.id).getD r

/-- The row of a node after the flushes of a heartbeat that loaded its node as
    `loaded` and set it to `own`. -/
def flushNode (loaded own : Node) (nodes : List Node) (r : Node) : Node :=
  let flushed := if r.id = loaded.id then Node.flush loaded own r else r
  let held := if r.id = loaded.id then own else r
  match nodes.find? fun n => n.id = r.id with
  | some n => Node.flush held n flushed
  | none => flushed

theorem flushStep_id (steps : List Step) (r : Step) : (flushStep steps r).id = r.id := by
  unfold flushStep
  cases h : steps.find? fun s => s.id = r.id with
  | none => rfl
  | some s => simpa using List.find?_some h

theorem flushNode_id (loaded own : Node) (nodes : List Node) (r : Node) :
    (flushNode loaded own nodes r).id = r.id := by
  unfold flushNode
  dsimp only
  split <;> split_ifs <;> rfl

/-- The write transaction of a heartbeat: flush the node, schedule, commit; an
    exception rolls back. -/
def heartbeatCommit (app : App) (now : Instant) (loaded own : Node) (db : Db) :
    Except SchedulerExn Unit × Db :=
  match scheduleQueuedSteps app now own db with
  | .error e => (.error e, db)
  | .ok (steps, nodes) => (.ok (), { db with
      nodes := db.nodes.update (flushNode loaded own nodes) (flushNode_id loaded own nodes)
      steps := db.steps.update (flushStep steps) (flushStep_id steps) })

/-- `heartbeat_node` -/
def heartbeatNode (app : App) (env : Ambient) (nodeId : String) (body : NodeHeartbeatRequest) :
    Handler Node := do
  requireValid body.invalid
  let node ← getNode nodeId
  let now := env.clock 0
  match ← atomic (heartbeatCommit app now node (node.heartbeat body now (env.clock 1))) with
  | .error _ => .throw internalError
  | .ok () => refreshNode nodeId

/-! ## Jobs -/

/-- The rows `create_job` builds for an accepted input file. -/
def newRows (app : App) (env : Ambient) (body : JobCreateRequest) (inputFile outputDir : String) :
    Job × Plan × Step :=
  let jobId := "job_" ++ env.jobHex
  let planId := "plan_" ++ env.planHex
  ( { id := jobId
      goalType := body.goalType
      inputFile := inputFile
      outputDir := outputDir
      status := .queued
      priority := body.priority
      language := body.language
      quality := body.quality
      requestedOutputs := body.outputs
      userRequest := body.userRequest
      planId := some planId
      createdAt := env.clock 0
      updatedAt := env.clock 1 },
    { id := planId
      jobId := jobId
      status := "queued"
      planJson := [("version", .str "1"), ("goal_type", .str body.goalType),
        ("steps", .arr [.str "video_to_subtitle_pipeline"])]
      createdAt := env.clock 2
      updatedAt := env.clock 3 },
    { id := "step_" ++ env.stepHex
      jobId := jobId
      planId := planId
      stepType := "video_to_subtitle"
      toolName := "video_to_subtitle_pipeline"
      status := .queued
      inputJson := [("input_file", .str inputFile), ("output_dir", .str outputDir),
        ("work_dir", .str (app.sharedRoot ++ ["work", jobId] : ResolvedPath).str),
        ("requested_outputs", .arr (body.outputs.map .str)),
        ("language", (body.language.map Json.str).getD .null),
        ("quality", .str body.quality)] } )

/-- Insert the rows of a job and commit; nothing is stored if an id is taken. -/
def insertJob (db : Db) (job : Job) (plan : Plan) (step : Step) : Bool × Db :=
  match db.jobs.insert? job, db.plans.insert? plan, db.steps.insert? step with
  | some jobs, some plans, some steps =>
    (true, { db with jobs := jobs, plans := plans, steps := steps })
  | _, _, _ => (false, db)

/-- `create_job` -/
def createJob (app : App) (env : Ambient) (body : JobCreateRequest) : Handler Job := do
  if body.goalType ≠ "video_to_subtitle" then .throw ⟨422, "unsupported goal_type for MVP"⟩
  else
    match resolveAllowlistedPath env.fs body.inputFile [app.sharedRoot.str] with
    | .error exc => .throw ⟨422, exc.detail⟩
    | .ok inputFile =>
      let outputRoot : ResolvedPath := app.sharedRoot ++ ["output"]
      match buildJobOutputDir env.fs outputRoot.str ("job_" ++ env.jobHex) with
      | .error _ => .throw internalError
      | .ok outputDir =>
        let (job, plan, step) := newRows app env body inputFile.str outputDir.str
        let inserted ← atomic fun db => insertJob db job plan step
        if !inserted then .throw internalError
        else
          match ← read fun db => db.jobs.get? job.id with
          | none => .throw internalError
          | some job => return job

def listJobs (limit offset : ℤ) : Handler (List Job) :=
  read fun db => page limit offset db.jobs.rows

def getJob (jobId : String) : Handler Job := do
  match ← read fun db => db.jobs.get? jobId with
  | none => .throw ⟨404, "job not found"⟩
  | some job => return job

/-- Flush the changes of a job object and commit. -/
def commitJob (old new : Job) : Handler Unit :=
  atomic fun db => ((), { db with
    jobs := db.jobs.update (fun r => if r.id = old.id then Job.flush old new r else r)
      fun r => by split_ifs <;> rfl })

/-- `mark_job_running` -/
def markJobRunning (clock : ℕ → Instant) (jobId : String) : Handler Unit := do
  match ← read fun db => db.jobs.get? jobId with
  | none => return ()
  | some job =>
    if job.status = .created ∨ job.status = .queued then
      commitJob job { job with
        status := .running
        progress := max job.progress 1
        updatedAt := clock 0 }
    else return ()

/-- The job object after `mark_job_after_step_completion` has seen the steps. -/
def Job.afterStepCompletion (job : Job) (steps : List Step) (clock : ℕ → Instant) : Job :=
  if steps.isEmpty then
    { job with
      status := .failed
      errorMessage := some "job has no steps"
      completedAt := some (clock 0)
      updatedAt := clock 1 }
  else
    let completedCount := steps.countP fun s => s.status = .completed
    let progress := pyRound ((completedCount : ℚ) / steps.length * 100) 2
    if completedCount = steps.length then
      { job with
        progress := progress
        status := .completed
        completedAt := some (clock 0)
        updatedAt := clock 1 }
    else { job with progress := progress, status := .running, updatedAt := clock 0 }

/-- `mark_job_after_step_completion` -/
def markJobAfterStepCompletion (clock : ℕ → Instant) (jobId : String) : Handler Unit := do
  match ← read fun db => db.jobs.get? jobId with
  | none => return ()
  | some job =>
    let steps ← read fun db => db.steps.select fun s => s.jobId = jobId
    commitJob job (job.afterStepCompletion steps clock)

/-- `mark_job_failed` -/
def markJobFailed (clock : ℕ → Instant) (jobId errorMessage : String) : Handler Unit := do
  match ← read fun db => db.jobs.get? jobId with
  | none => return ()
  | some job =>
    commitJob job { job with
      status := .failed
      errorMessage := some errorMessage
      completedAt := some (clock 0)
      updatedAt := clock 1 }

/-! ## Steps -/

/-- A column set by the `values` of an `UPDATE`. -/
inductive StepValue where
  | status (v : StepStatus)
  | claimedAt (v : Instant)
  | startedAt (v : Instant)
  | completedAt (v : Instant)
  | outputJson (v : Dict)
  | errorMessage (v : String)

def StepValue.set (r : Step) : StepValue → Step
  | status v => { r with status := v }
  | claimedAt v => { r with claimedAt := some v }
  | startedAt v => { r with startedAt := some v }
  | completedAt v => { r with completedAt := some v }
  | outputJson v => { r with outputJson := some v }
  | errorMessage v => { r with errorMessage := some v }

/-- `.values(**values)` -/
def Step.setValues (r : Step) (values : List StepValue) : Step := values.foldl StepValue.set r

theorem Step.setValues_id (r : Step) (values : List StepValue) :
    (r.setValues values).id = r.id := by
  unfold Step.setValues
  induction values generalizing r with
  | nil => rfl
  | cons v values ih => rw [List.foldl_cons, ih]; cases v <;> rfl

/-- `UPDATE step SET values WHERE guard`, committed if exactly one row matched
    and else rolled back; the result is the row count. -/
def updateSteps (guard : Step → Bool) (values : List StepValue) (db : Db) : ℕ × Db :=
  if db.steps.count guard = 1 then
    (1, { db with
      steps := db.steps.update (fun r => if guard r then r.setValues values else r)
        fun r => by split_ifs <;> simp [Step.setValues_id] })
  else (db.steps.count guard, db)

def getStepOr404 (stepId : String) : Handler Step := do
  match ← read fun db => db.steps.get? stepId with
  | none => .throw ⟨404, "step not found"⟩
  | some step => return step

def validateEpochOr409 (step : Step) (assignmentEpoch : ℤ) : Handler Unit :=
  match validateAssignmentEpoch step assignmentEpoch with
  | .error exc => .throw ⟨409, exc.detail⟩
  | .ok () => .ret ()

def transitionOr409 (step : Step) (target : StepStatus) : Handler StepStatus :=
  match transitionStep step.status target with
  | .error exc => .throw ⟨409, exc.detail⟩
  | .ok next => .ret next

def validateWorkerOwnership (step : Step) (workerNodeId : String) : Handler Unit :=
  if step.assignedNodeId ≠ some workerNodeId then
    .throw ⟨403, "worker does not own assigned step"⟩
  else .ret ()

/-- The `WHERE` clause of `persist_step_update_or_409`. -/
def persistGuard (step : Step) (workerNodeId : String) (fromStatuses : List StepStatus)
    (requireUnclaimed : Bool) (r : Step) : Bool :=
  r.id = step.id ∧ r.assignmentEpoch = step.assignmentEpoch ∧
    r.assignedNodeId = some workerNodeId ∧ r.status ∈ fromStatuses ∧
    (requireUnclaimed → r.claimedAt = none)

/-- `persist_step_update_or_409` -/
def persistStepUpdateOr409 (step : Step) (workerNodeId : String) (fromStatuses : List StepStatus)
    (values : List StepValue) (requireUnclaimed : Bool) : Handler Step := do
  let rowcount ←
    atomic (updateSteps (persistGuard step workerNodeId fromStatuses requireUnclaimed) values)
  if rowcount ≠ 1 then .throw ⟨409, "step changed before lifecycle update"⟩
  else
    match ← read fun db => db.steps.get? step.id with
    | none => .throw ⟨404, "step not found"⟩
    | some refreshed => return refreshed

/-- The first three checks of every lifecycle endpoint: the step exists, the
    worker owns it, the epoch is current. -/
def loadOwnedStep (stepId workerNodeId : String) (assignmentEpoch : ℤ) : Handler Step := do
  let step ← getStepOr404 stepId
  validateWorkerOwnership step workerNodeId
  validateEpochOr409 step assignmentEpoch
  return step

/-- `ORDER BY assigned_at`: no time comes first. -/
def assignedAtLe (a b : Step) : Bool :=
  match a.assignedAt, b.assignedAt with
  | none, _ => true
  | some _, none => false
  | some x, some y => x ≤ y

/-- The rows `claim_next` selects from, in its order. -/
def claimableSteps (db : Db) (workerNodeId : String) : List Step :=
  (db.steps.select fun s =>
      s.status = .assigned ∧ s.assignedNodeId = some workerNodeId ∧ s.claimedAt = none).insertionSort
    fun a b => assignedAtLe a b

/-- The `WHERE` clause of the `UPDATE` in `claim_next`. -/
def claimNextGuard (step : Step) (workerNodeId : String) (r : Step) : Bool :=
  r.id = step.id ∧ r.status = .assigned ∧ r.assignedNodeId = some workerNodeId ∧ r.claimedAt = none

/-- `claim_next`; `none` is the answer 204. -/
def claimNext (env : Ambient) (workerNodeId : String) (body : StepClaimNextRequest) :
    Handler (Option Step) := do
  if body.nodeId ≠ workerNodeId then .throw ⟨403, "worker node id mismatch"⟩
  else
    match ← read fun db => (claimableSteps db workerNodeId).head? with
    | none => return none
    | some step =>
      let rowcount ← atomic
        (updateSteps (claimNextGuard step workerNodeId) [.claimedAt (env.clock 0)])
      if rowcount ≠ 1 then return none
      else read fun db => db.steps.get? step.id

/-- `start_step` -/
def startStep (env : Ambient) (workerNodeId stepId : String) (body : StepEpochRequest) :
    Handler Step := do
  let step ← loadOwnedStep stepId workerNodeId body.assignmentEpoch
  let nextStatus ← transitionOr409 step .running
  let updated ← persistStepUpdateOr409 step workerNodeId [.assigned]
    [.status nextStatus, .startedAt (env.clock 0)] false
  markJobRunning (fun i => env.clock (i + 1)) updated.jobId
  return updated

/-- The `progress` entry of `progress_step`. -/
def StepProgressRequest.payload (body : StepProgressRequest) : Json :=
  .obj [("percent", (body.percent.map Json.float).getD .null),
    ("message", (body.message.map Json.str).getD .null)]

/-- `progress_step` -/
def progressStep (workerNodeId stepId : String) (body : StepProgressRequest) : Handler Step := do
  requireValid body.invalid
  let step ← loadOwnedStep stepId workerNodeId body.assignmentEpoch
  let outputJson := dictSet (step.outputJson.getD []) "progress" body.payload
  persistStepUpdateOr409 step workerNodeId [.running] [.outputJson outputJson] false

/-- `complete_step` -/
def completeStep (env : Ambient) (workerNodeId stepId : String) (body : StepCompleteRequest) :
    Handler Step := do
  let step ← loadOwnedStep stepId workerNodeId body.assignmentEpoch
  let nextStatus ← transitionOr409 step .completed
  let updated ← persistStepUpdateOr409 step workerNodeId [.running]
    [.status nextStatus, .outputJson body.outputJson, .completedAt (env.clock 0)] false
  markJobAfterStepCompletion (fun i => env.clock (i + 1)) updated.jobId
  return updated

/-- `fail_step` -/
def failStep (env : Ambient) (workerNodeId stepId : String) (body : StepFailRequest) :
    Handler Step := do
  let step ← loadOwnedStep stepId workerNodeId body.assignmentEpoch
  let nextStatus ← transitionOr409 step .failed
  let updated ← persistStepUpdateOr409 step workerNodeId [.assigned, .running]
    [.status nextStatus, .errorMessage body.errorMessage, .completedAt (env.clock 0)] false
  markJobFailed (fun i => env.clock (i + 1)) updated.jobId body.errorMessage
  return updated

/-- `claim_step` -/
def claimStep (env : Ambient) (workerNodeId stepId : String) (body : StepEpochRequest) :
    Handler Step := do
  let step ← loadOwnedStep stepId workerNodeId body.assignmentEpoch
  if step.status ≠ .assigned then .throw ⟨409, "step is not assigned"⟩
  else persistStepUpdateOr409 step workerNodeId [.assigned] [.claimedAt (env.clock 0)] true

/-! ## The application -/

/-- The answer to a request: the dependencies, then the endpoint. -/
def App.handle (app : App) (r : Request) : Handler Response := do
  requireWorkerAuth app r.headers
  match r.call with
  | .listNodes limit offset => return .nodes (← listNodes limit offset)
  | .getNode nodeId => return .node (← getNode nodeId)
  | .registerNode body => return .node (← registerNode app r.ambient body)
  | .heartbeatNode nodeId body => return .node (← heartbeatNode app r.ambient nodeId body)
  | .createJob body => return .job (← createJob app r.ambient body)
  | .listJobs limit offset => return .jobs (← listJobs limit offset)
  | .getJob jobId => return .job (← getJob jobId)
  | .claimNext body => do
    let workerNodeId ← requireWorkerNodeId r.headers
    match ← claimNext r.ambient workerNodeId body with
    | none => return .noContent
    | some step => return .step step
  | .startStep stepId body => do
    let workerNodeId ← requireWorkerNodeId r.headers
    return .step (← startStep r.ambient workerNodeId stepId body)
  | .progressStep stepId body => do
    let workerNodeId ← requireWorkerNodeId r.headers
    return .step (← progressStep workerNodeId stepId body)
  | .completeStep stepId body => do
    let workerNodeId ← requireWorkerNodeId r.headers
    return .step (← completeStep r.ambient workerNodeId stepId body)
  | .failStep stepId body => do
    let workerNodeId ← requireWorkerNodeId r.headers
    return .step (← failStep r.ambient workerNodeId stepId body)
  | .claimStep stepId body => do
    let workerNodeId ← requireWorkerNodeId r.headers
    return .step (← claimStep r.ambient workerNodeId stepId body)

/-- The row of a step after `recover_timed_out_step`; it raises, and nothing is
    committed, for a step that is neither assigned nor running. -/
def recoverRow (r : Step) : Step :=
  match recoverTimedOutStep r with
  | .error _ => r
  | .ok r' => r'

theorem recoverRow_eq (r : Step) : recoverRow r =
    if r.status = .assigned ∨ r.status = .running then r.recovered else r := by
  unfold recoverRow
  split_ifs with h
  · rw [recoverTimedOutStep_ok.2 ⟨h, rfl⟩]
  · cases hr : recoverTimedOutStep r with
    | error e => rfl
    | ok r' => exact absurd (recoverTimedOutStep_ok.1 hr).1 h

theorem Step.recovered_id (r : Step) : r.recovered.id = r.id := by
  unfold Step.recovered; split_ifs <;> rfl

theorem recoverRow_id (r : Step) : (recoverRow r).id = r.id := by
  rw [recoverRow_eq]; split_ifs <;> simp [Step.recovered_id]

/-- A committed application of `recover_timed_out_step` to the step `stepId`. -/
def recoverStep (stepId : String) (db : Db) : Db :=
  { db with
    steps := db.steps.update (fun r => if r.id = stepId then recoverRow r else r)
      fun r => by split_ifs <;> simp [recoverRow_id] }

/-- The Controller: its requests, and recovery as an action of its own. -/
def App.controller (app : App) : Service Db HttpError Response Request String where
  handler := app.handle
  env := recoverStep

end MediaOrchard
