/-
  The database of the Controller (`controller/db/models.py`): the tables
  `node`, `job`, `plan` and `step`.

  Times are UTC instants in microseconds (`UTCDateTime` normalises to UTC on
  the way in and out).  A session writes a changed object back by an `UPDATE`
  of the columns whose value differs from the one it loaded: `Node.flush` and
  `Job.flush` merge such a write into the current row, which may have changed
  since.
-/
import MediaOrchard.Lib.Table
import MediaOrchard.Shared.Basic

namespace MediaOrchard

open Keyed

/-- A UTC time, in microseconds. -/
abbrev Instant := ℤ

/-! ## Rows -/

/-- The table `node`, with the defaults of the class `Node`. -/
structure Node where
  id : String
  name : String
  host : Option String := none
  status : NodeStatus := .online
  sharedRoot : String
  maxFfmpegJobs : ℤ := 1
  maxWhisperJobs : ℤ := 1
  activeJobs : ℤ := 0
  activeFfmpegJobs : ℤ := 0
  activeWhisperJobs : ℤ := 0
  cpuPercent : ℚ := 0
  memoryPercent : ℚ := 0
  freeDiskGb : ℚ := 0
  thermalState : String := "unknown"
  onBattery : Bool := false
  lastHeartbeatAt : Option Instant := none
  createdAt : Instant
  updatedAt : Instant
  deriving DecidableEq

/-- The table `job`, with the defaults of the class `Job`. -/
structure Job where
  id : String
  goalType : String
  inputFile : String
  outputDir : String
  status : JobStatus := .created
  priority : ℤ := 5
  language : Option String := none
  quality : String := "standard"
  requestedOutputs : List String := []
  userRequest : Option String := none
  planId : Option String := none
  progress : ℚ := 0
  errorMessage : Option String := none
  createdAt : Instant
  updatedAt : Instant
  completedAt : Option Instant := none
  deriving DecidableEq

/-- The table `plan`, with the defaults of the class `Plan`. -/
structure Plan where
  id : String
  jobId : String
  status : String := "created"
  createdBy : String := "rules"
  planSchemaVersion : String := "1"
  planJson : Dict := [("version", .str "1")]
  createdAt : Instant
  updatedAt : Instant

/-- The table `step`, with the defaults of the class `Step`. -/
structure Step where
  id : String
  jobId : String
  planId : String
  stepType : String
  toolName : String
  status : StepStatus := .pending
  dependsOn : List String := []
  assignedNodeId : Option String := none
  assignedAt : Option Instant := none
  claimedAt : Option Instant := none
  assignmentEpoch : ℤ := 0
  inputJson : Dict := []
  outputJson : Option Dict := none
  retryCount : ℤ := 0
  maxRetries : ℤ := 2
  startedAt : Option Instant := none
  completedAt : Option Instant := none
  errorMessage : Option String := none

instance : HasKey Node String := ⟨Node.id⟩
instance : HasKey Job String := ⟨Job.id⟩
instance : HasKey Plan String := ⟨Plan.id⟩
instance : HasKey Step String := ⟨Step.id⟩

@[simp] theorem Node.key_eq (n : Node) : HasKey.key n = n.id := rfl
@[simp] theorem Job.key_eq (j : Job) : HasKey.key j = j.id := rfl
@[simp] theorem Plan.key_eq (p : Plan) : HasKey.key p = p.id := rfl
@[simp] theorem Step.key_eq (s : Step) : HasKey.key s = s.id := rfl

/-- The database. -/
@[ext] structure Db where
  nodes : Table Node
  jobs : Table Job
  plans : Table Plan
  steps : Table Step

/-- The database after `init_db`. -/
def Db.empty : Db := ⟨.empty, .empty, .empty, .empty⟩

/-! ## Writing an object back -/

/-- The column after the flush of an object loaded with `old` and now holding
    `new`, where the row holds `cur`. -/
def flushCol {α : Type} [DecidableEq α] (old new cur : α) : α := if new = old then cur else new

@[simp] theorem flushCol_self {α : Type} [DecidableEq α] (old new : α) :
    flushCol old new old = new := by
  unfold flushCol; split_ifs with h
  · exact h.symm
  · rfl

/-- Flush the node object `new`, loaded as `old`, into the row `cur`. -/
def Node.flush (old new cur : Node) : Node where
  id := cur.id
  name := flushCol old.name new.name cur.name
  host := flushCol old.host new.host cur.host
  status := flushCol old.status new.status cur.status
  sharedRoot := flushCol old.sharedRoot new.sharedRoot cur.sharedRoot
  maxFfmpegJobs := flushCol old.maxFfmpegJobs new.maxFfmpegJobs cur.maxFfmpegJobs
  maxWhisperJobs := flushCol old.maxWhisperJobs new.maxWhisperJobs cur.maxWhisperJobs
  activeJobs := flushCol old.activeJobs new.activeJobs cur.activeJobs
  activeFfmpegJobs := flushCol old.activeFfmpegJobs new.activeFfmpegJobs cur.activeFfmpegJobs
  activeWhisperJobs := flushCol old.activeWhisperJobs new.activeWhisperJobs cur.activeWhisperJobs
  cpuPercent := flushCol old.cpuPercent new.cpuPercent cur.cpuPercent
  memoryPercent := flushCol old.memoryPercent new.memoryPercent cur.memoryPercent
  freeDiskGb := flushCol old.freeDiskGb new.freeDiskGb cur.freeDiskGb
  thermalState := flushCol old.thermalState new.thermalState cur.thermalState
  onBattery := flushCol old.onBattery new.onBattery cur.onBattery
  lastHeartbeatAt := flushCol old.lastHeartbeatAt new.lastHeartbeatAt cur.lastHeartbeatAt
  createdAt := flushCol old.createdAt new.createdAt cur.createdAt
  updatedAt := flushCol old.updatedAt new.updatedAt cur.updatedAt

/-- Flush the job object `new`, loaded as `old`, into the row `cur`. -/
def Job.flush (old new cur : Job) : Job where
  id := cur.id
  goalType := flushCol old.goalType new.goalType cur.goalType
  inputFile := flushCol old.inputFile new.inputFile cur.inputFile
  outputDir := flushCol old.outputDir new.outputDir cur.outputDir
  status := flushCol old.status new.status cur.status
  priority := flushCol old.priority new.priority cur.priority
  language := flushCol old.language new.language cur.language
  quality := flushCol old.quality new.quality cur.quality
  requestedOutputs := flushCol old.requestedOutputs new.requestedOutputs cur.requestedOutputs
  userRequest := flushCol old.userRequest new.userRequest cur.userRequest
  planId := flushCol old.planId new.planId cur.planId
  progress := flushCol old.progress new.progress cur.progress
  errorMessage := flushCol old.errorMessage new.errorMessage cur.errorMessage
  createdAt := flushCol old.createdAt new.createdAt cur.createdAt
  updatedAt := flushCol old.updatedAt new.updatedAt cur.updatedAt
  completedAt := flushCol old.completedAt new.completedAt cur.completedAt

@[simp] theorem Node.flush_id (old new cur : Node) : (Node.flush old new cur).id = cur.id := rfl

@[simp] theorem Job.flush_id (old new cur : Job) : (Job.flush old new cur).id = cur.id := rfl

/-- A flush into the row as it was loaded stores the object. -/
theorem Node.flush_loaded {old new : Node} (h : new.id = old.id) :
    Node.flush old new old = new := by
  cases old; cases new
  simp only [Node.flush, flushCol_self] at h ⊢
  simp [h]

theorem Job.flush_loaded {old new : Job} (h : new.id = old.id) :
    Job.flush old new old = new := by
  cases old; cases new
  simp only [Job.flush, flushCol_self] at h ⊢
  simp [h]

/-- The status column keeps the row's value or takes the object's. -/
theorem Job.flush_status (old new cur : Job) :
    (Job.flush old new cur).status = cur.status ∨ (Job.flush old new cur).status = new.status := by
  simp only [Job.flush, flushCol]
  split_ifs
  exacts [Or.inl rfl, Or.inr rfl]

theorem Job.flush_status_ne {old new cur : Job} (h : new.status ≠ old.status) :
    (Job.flush old new cur).status = new.status := if_neg h

end MediaOrchard
