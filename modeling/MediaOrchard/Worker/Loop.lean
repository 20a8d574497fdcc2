/-
  The polling loop of a Worker (`run_worker` of `cli/runtime.py`, the other
  requests of `worker/agent.py`).

  The loop is a program of requests, readings of the metrics, step runs and
  pauses, each of which may raise; exceptions are their texts.  It goes on for as
  many polls as it has fuel.
-/
import MediaOrchard.Worker.Runtime
import MediaOrchard.Shared.Storage

namespace MediaOrchard

open Posix Effects

/-- What `run_worker` reads of `WorkerRuntimeConfig`. -/
structure WorkerLoopConfig where
  nodeId : String
  nodeName : String
  sharedRoot : PurePath
  apiKey : String
  maxFfmpegJobs : ℤ := 1
  maxWhisperJobs : ℤ := 1
  pollOnce : Bool := false
  maxPolls : Option ℤ := none
  claimIntervalSeconds : ℚ := 2
  executeClaimedSteps : Bool := true

/-- What the loop does. -/
inductive LoopOp where
  | post (request : HttpRequest)
  | collectMetrics
  | runStep (step : Dict)
  | sleep (seconds : ℚ)

/-- What it is answered; every operation may raise. -/
def LoopOp.Answer : LoopOp → Type
  | post _ => Except String (Option Dict)
  | collectMetrics => Except String NodeHeartbeatRequest
  | runStep _ => Except String Dict
  | sleep _ => Except String Unit

abbrev LoopProg (α : Type) := Eff LoopOp LoopOp.Answer String α

/-- The execution of a claimed step in the loop; it does not look at what its
    reports are answered. -/
def WorkerProg.loop {α : Type} : WorkerProg α → LoopProg α
  | .ret a => .ret a
  | .raise exc => .throw exc
  | .call request k => .op (.post request) fun r => loop (k (r.map fun _ => none))
  | .run step k => .op (.runStep step) fun r => loop (k r)

section
variable (h : Host) (str : Json → String) (config : WorkerLoopConfig)

namespace WorkerLoopConfig

/-- `WorkerAgent(...)` -/
def worker : WorkerAgent := ⟨config.nodeId, config.apiKey, str⟩

/-- `transport.post` -/
def post (call : Call) : LoopProg (Option Dict) :=
  .op (.post ⟨call, (config.worker str).headers⟩) Eff.liftExcept

/-- `register` -/
def register : LoopProg (Option Dict) :=
  config.post str (.registerNode
    { nodeId := config.nodeId
      name := config.nodeName
      sharedRoot := (h.real (h.expanduser config.sharedRoot)).str
      maxFfmpegJobs := config.maxFfmpegJobs
      maxWhisperJobs := config.maxWhisperJobs })

/-- `heartbeat` -/
def heartbeat (metrics : NodeHeartbeatRequest) : LoopProg (Option Dict) :=
  config.post str (.heartbeatNode config.nodeId metrics)

/-- `claim_next` -/
def claimNext : LoopProg (Option Dict) := config.post str (.claimNext ⟨config.nodeId⟩)

end WorkerLoopConfig

/-- `metrics_provider()` -/
def collectMetrics : LoopProg NodeHeartbeatRequest := .op .collectMetrics Eff.liftExcept

/-- `sleep(config.claim_interval_seconds)` -/
def pause : LoopProg Unit := .op (.sleep config.claimIntervalSeconds) Eff.liftExcept

/-- The execution of what was claimed. -/
def executeClaimed : Option Dict → LoopProg Unit
  | none => pure ()
  | some step =>
    if config.executeClaimedSteps then WorkerProg.loop (executeClaimedStep (config.worker str) step)
    else pure ()

/-- `config.max_polls is not None and polls >= config.max_polls`, or `config.poll_once` -/
def WorkerLoopConfig.stops (polls : ℕ) : Bool :=
  config.pollOnce || config.maxPolls.any fun maxPolls => maxPolls ≤ (polls : ℤ)

/-- The loop of `run_worker` after `polls` polls that claimed `claimedSteps`; none is out
    of fuel. -/
def pollLoop : ℕ → ℕ → List Dict → LoopProg (Option (List Dict))
  | 0, _, _ => pure none
  | fuel + 1, polls, claimedSteps => do
    let metrics ← collectMetrics
    let _ ← config.heartbeat str metrics
    let claimed ← config.claimNext str
    let claimedSteps := claimedSteps ++ claimed.toList
    executeClaimed str config claimed
    if config.stops (polls + 1) then pure (some claimedSteps)
    else do
      pause config
      pollLoop fuel (polls + 1) claimedSteps

/-- `run_worker` -/
def runWorker (fuel : ℕ) : LoopProg (Option (List Dict)) := do
  let _ ← config.register h str
  pollLoop str config fuel 0 []

end

end MediaOrchard
