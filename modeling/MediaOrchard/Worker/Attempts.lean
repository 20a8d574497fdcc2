/-
  Attempts: the Workers execute claimed steps on the shared storage.

  A `Site` is the Controller with its Worker processes (`App.system`), the disk
  that all hosts share, and the attempts: the runs of `run_claimed_pipeline_step`
  begun so far, each on its host and with the log of its operations.  A run
  interleaves the moves of the system, the operations of the attempts and what
  others do to the disk.
-/
import MediaOrchard.Worker.Pipelines

namespace MediaOrchard

open Keyed Interleave Posix Effects

/-- What surrounds the Controller and the Workers: the hosts, what a command does
    on a host, and how others change the disk. -/
structure Plant where
  lib : Library
  host : Host → Prop
  command : Host → CommandSem
  foreign : Disk → Disk → Prop

/-! ## Files written -/

/-- An operation that an attempt has performed. -/
abbrev FileCall := Effects.Call FileOp FileOp.Ans Disk

/-- The path that an operation is to write. -/
def FileOp.target : FileOp → Option PurePath
  | write p _ => some p
  | command _ output _ => output
  | _ => none

/-- The call writes the file `q`: it is told to, or `q` is changed by it other than
    by becoming a directory. -/
def FileCall.Writes (h : Host) (c : FileCall) (q : ResolvedPath) : Prop :=
  (∃ p, c.op.target = some p ∧ h.real p = q) ∨
    (c.post.entry q ≠ c.pre.entry q ∧ ¬ (c.pre.entry q = none ∧ c.post.entry q = some .dir))

/-! ## Attempts -/

/-- The run of a claimed step by a Worker process: what is left of it, and its
    operations, latest first. -/
structure Attempt where
  client : ℕ
  step : Dict
  config : WorkerRuntimeConfig
  host : Host
  prog : FileProg Dict
  log : List FileCall

namespace Attempt

/-- The attempt has written the file `q`. -/
def Wrote (a : Attempt) (q : ResolvedPath) : Prop := ∃ c ∈ a.log, c.Writes a.host q

/-- What the attempt has returned or raised. -/
def outcome? (a : Attempt) : Option (Except String Dict) :=
  match a.prog with
  | .ret outputJson => some (.ok outputJson)
  | .throw exc => some (.error exc.text)
  | .op _ _ => none

/-- The id of the job that the attempt works for. -/
def jobId (a : Attempt) : String := ((requiredStepStr a.step "job_id").toOption).getD ""

end Attempt

/-- The claimed step is the row `x`, as far as the runner reads it. -/
structure Step.Carried (x : Step) (step : Dict) : Prop where
  id : Dict.get? step "id" = some (.str x.id)
  jobId : Dict.get? step "job_id" = some (.str x.jobId)
  toolName : Dict.get? step "tool_name" = some (.str x.toolName)
  inputJson : Dict.get? step "input_json" = some (.obj x.inputJson)

/-! ## Sites -/

/-- The system, the disk and the attempts begun so far. -/
structure Site (app : App) where
  world : World app.system
  disk : Disk
  attempts : List Attempt

variable {app : App}

/-- The database. -/
abbrev Site.db (s : Site app) : Db := s.world.conf.db

/-- The site before anything has happened. -/
def Site.init (app : App) (db₀ : Db) (disk : Disk) : Site app := ⟨.init app.system db₀, disk, []⟩

/-- The file system of a request is that of a host. -/
def Plant.Sees (P : Plant) (env : Ambient) : Prop := ∃ h, P.host h ∧ env.fs.resolve = h.resolve

/-- The moves of the system that go with no attempt. -/
def Plant.Free (P : Plant) : Move Request String Ambient (WorkerAgent × Dict) Dict String → Prop
  | .service (.arrive r) => P.Sees r.ambient
  | .deliver _ env => P.Sees env
  | .invoke _ | .finish _ _ => False
  | _ => True

/-- One move of a site. -/
inductive Site.Next (P : Plant) (s : Site app) : Site app → Prop
  /-- the Controller, the network or a process moves -/
  | world (m) (hm : P.Free m) : Next P s ⟨s.world.step m, s.disk, s.attempts⟩
  /-- a process begins to run its claimed step -/
  | invoke {c step k log x} (config h) (hp : s.world.procs[c]? = some ⟨.run step k, .idle, log⟩)
      (hx : x ∈ s.db.steps.rows) (hc : x.Carried step) (hh : P.host h) :
      Next P s ⟨s.world.step (.invoke c), s.disk,
        s.attempts ++ [⟨c, step, config, h, runClaimedPipelineStep P.lib h config step, []⟩]⟩
  /-- an attempt performs its next operation -/
  | op {i a o k r d} (ha : s.attempts[i]? = some a) (hp : a.prog = .op o k)
      (hs : o.Step a.host (P.command a.host) s.disk r d) :
      Next P s ⟨s.world, d,
        s.attempts.set i { a with prog := k r, log := ⟨o, r, s.disk, d⟩ :: a.log }⟩
  /-- an attempt has ended -/
  | finish {a o k log} (ha : a ∈ s.attempts) (ho : a.outcome? = some o)
      (hp : s.world.procs[a.client]? = some ⟨.run a.step k, .busy, log⟩) :
      Next P s ⟨s.world.step (.finish a.client o), s.disk, s.attempts⟩
  /-- others change the disk -/
  | foreign {d} (hd : P.foreign s.disk d) : Next P s ⟨s.world, d, s.attempts⟩

/-- The runs from `s₀`, with the moves made, latest first. -/
inductive Site.Run (P : Plant) (s₀ : Site app) : List (Site app × Site app) → Site app → Prop
  | init : Run P s₀ [] s₀
  | step {tr s s'} : Run P s₀ tr s → Site.Next P s s' → Run P s₀ ((s, s') :: tr) s'

end MediaOrchard
