/-
  The command line (`cli/main.py`), and the client of the Controller behind it
  (`ControllerApiClient`, `list_jobs`, `list_nodes` and `submit_job` of `cli/runtime.py`).

  A command is a program of what it does outside: it looks for files, runs commands, asks
  the Controller, starts a server or a Worker, and writes lines.  Its options arrive parsed;
  the environment is a parameter.
-/
import MediaOrchard.Controller.Priorities
import MediaOrchard.Worker.Bootstrap
import MediaOrchard.Worker.Preflight
import MediaOrchard.Worker.Loop

namespace MediaOrchard

open Posix Effects

/-! ## Programs -/

/-- An operation of the command line. -/
inductive CliOp where
  | exist (path : PurePath)
  | run (call : Invocation)
  | request (request : HttpRequest)
  | work (op : LoopOp)
  | serve (environ : Environ) (run : UvicornRun)
  | echo (text : String) (err : Bool)

/-- What it is answered. -/
@[reducible] def CliOp.Answer : CliOp → Type
  | exist _ => Except Exn Bool
  | run _ => Except Exn CompletedProcess
  | request _ => Except String (Option Json)
  | work op => op.Answer
  | serve _ _ => Except String Unit
  | echo _ _ => Unit

/-- How a command ends early: `typer.BadParameter`, `typer.Exit`, or an exception that
    nobody catches, by its text. -/
inductive CliExn where
  | badParameter (message : String)
  | exit (code : ℤ)
  | uncaught (text : String)
  deriving DecidableEq

abbrev CliProg := Eff CliOp CliOp.Answer CliExn

namespace Cli

/-- Raise an exception of the operating system or of a runner. -/
def uncaught {α : Type} (r : Except Exn α) : CliProg α :=
  Eff.liftExcept (r.mapError fun exn => .uncaught exn.text)

/-- `path.exists()` -/
def pathExists (path : PurePath) : CliProg Bool := .op (.exist path) uncaught

/-- `typer.echo(text, err=err)` -/
def echo (text : String) (err : Bool := false) : CliProg Unit := .op (.echo text err) .ret

/-- `for x in xs: f(x)` -/
def forEach {β : Type} (f : β → CliProg Unit) : List β → CliProg Unit
  | [] => .ret ()
  | x :: xs => (f x).bind fun _ => forEach f xs

/-- A program that runs commands. -/
def running {α : Type} (p : RunnerProg α) : CliProg α :=
  Eff.rename CliOp.run (fun _ r => r) (fun exn => .uncaught exn.text) p

/-- A program of a Worker. -/
def working {α : Type} (p : LoopProg α) : CliProg α :=
  Eff.rename CliOp.work (fun _ r => r) .uncaught p

/-! ## Options -/

/-- `option or os.getenv(name)`; what is missing counts as empty. -/
def optionOr (env : Environ) (name : String) (option : Option String) : String :=
  if option.getD "" ≠ "" then option.getD "" else (env name).getD ""

/-- `_require_api_key` -/
def requireApiKey (env : Environ) (apiKey : Option String) : Except CliExn String :=
  let rawApiKey := optionOr env "MEDIAORCHARD_API_KEY" apiKey
  if rawApiKey = "" then
    .error (.badParameter "Controller API key is required via --api-key or MEDIAORCHARD_API_KEY")
  else .ok rawApiKey

/-- `_require_api_key_hash` -/
def requireApiKeyHash (env : Environ) (apiKeyHash : Option String) : Except CliExn String :=
  let rawApiKeyHash := optionOr env "MEDIAORCHARD_API_KEY_HASH" apiKeyHash
  if rawApiKeyHash = "" ∨ rawApiKeyHash = "__unset__" then
    .error (.badParameter
      "Controller API key hash is required via --api-key-hash or MEDIAORCHARD_API_KEY_HASH")
  else .ok rawApiKeyHash

/-- `_parse_node_priorities` -/
def parseNodePriorities (int : String → Option ℤ) (env : Environ) (values : Option (List String)) :
    Except CliExn (List (String × ℤ)) :=
  (cliNodePriorities int env values).mapError .badParameter

/-- `targets or ["local"]` -/
def targetsOr (targets : Option (List String)) : List String :=
  if targets.getD [] = [] then ["local"] else targets.getD []

/-! ## The services -/

/-- The options of `controller start`. -/
structure ControllerOptions where
  host : String := "0.0.0.0"
  port : ℤ := 18765
  databaseUrl : String := "sqlite:///mediaorchard.db"
  apiKeyHash : Option String := none
  sharedRoot : String := "/Volumes/MediaOrchard"
  nodePriority : Option (List String) := none
  logLevel : String := "info"

/-- `controller_start` -/
def controllerStart (h : Host) (int : String → Option ℤ) (env : Environ) (o : ControllerOptions) :
    CliProg Unit := do
  let rawApiKeyHash ← Eff.liftExcept (requireApiKeyHash env o.apiKeyHash)
  let nodePriorities ← Eff.liftExcept (parseNodePriorities int env o.nodePriority)
  echo ("Starting Controller on " ++ o.host ++ ":" ++ toString o.port)
  let (environ, run) ← Eff.liftExcept ((runController h
    { host := o.host
      port := o.port
      databaseUrl := o.databaseUrl
      apiKeyHash := rawApiKeyHash
      sharedRoot := o.sharedRoot
      nodePriorities := nodePriorities
      logLevel := o.logLevel } env).mapError .uncaught)
  .op (.serve environ run) fun r => Eff.liftExcept (r.mapError .uncaught)

/-- The options of `worker start`, but for those of the step runner. -/
structure WorkerOptions where
  nodeId : String
  nodeName : Option String := none
  apiKey : Option String := none
  sharedRoot : PurePath := PurePath.ofString "/Volumes/MediaOrchard"
  maxFfmpegJobs : ℤ := 1
  maxWhisperJobs : ℤ := 1
  once : Bool := false
  maxPolls : Option ℤ := none
  claimIntervalSeconds : ℚ := 2
  executionMode : String := "deterministic"

/-- The configuration of the polling loop. -/
def WorkerOptions.config (o : WorkerOptions) (apiKey : String) : WorkerLoopConfig where
  nodeId := o.nodeId
  nodeName := if o.nodeName.getD "" = "" then o.nodeId else o.nodeName.getD ""
  sharedRoot := o.sharedRoot
  apiKey := apiKey
  maxFfmpegJobs := o.maxFfmpegJobs
  maxWhisperJobs := o.maxWhisperJobs
  pollOnce := o.once
  maxPolls := o.maxPolls
  claimIntervalSeconds := o.claimIntervalSeconds

/-- `worker_start`, with fuel for its polls; none is out of fuel. -/
def workerStart (h : Host) (str : Json → String) (env : Environ) (fuel : ℕ) (o : WorkerOptions) :
    CliProg (Option Unit) := do
  let rawApiKey ← Eff.liftExcept (requireApiKey env o.apiKey)
  if o.executionMode ∉ ["deterministic", "real"] then
    .throw (.badParameter "execution-mode must be deterministic or real")
  else do
    echo ("Starting Worker " ++ o.nodeId)
    match ← working (runWorker h str (o.config rawApiKey) fuel) with
    | none => pure none
    | some claimed => do
      if o.once ∨ o.maxPolls.isSome then
        echo ("Claimed " ++ toString claimed.length ++ " step(s)")
      pure (some ())

/-! ## The client of the Controller -/

/-- `_display`; `str` is Python's `str()` of a value that is neither a string nor an integer. -/
def display (str : Json → String) : Option Json → String
  | none | some .null => "-"
  | some (.str s) => s
  | some (.int n) => toString n
  | some v => str v

/-- `ControllerApiClient._request` -/
def clientRequest (apiKey : String) (call : Call) : CliProg (Option Json) :=
  .op (.request ⟨call, { authorization := some ("Bearer " ++ apiKey) }⟩) fun r =>
    Eff.liftExcept (r.mapError .uncaught)

/-- An item of a list of JSON objects. -/
def jsonObject (name : String) : Json → Except CliExn Dict
  | .obj item => .ok item
  | _ => .error (.uncaught ("Controller " ++ name ++ " response must contain JSON objects"))

/-- `_json_object_list` -/
def jsonObjectList (name : String) : Option Json → Except CliExn (List Dict)
  | some (.arr items) => items.mapM (jsonObject name)
  | _ => .error (.uncaught ("Controller " ++ name ++ " response must be a JSON list"))

/-- The line of a row. -/
def rowLine (str : Json → String) (columns : List String) (row : Dict) : String :=
  "\t".intercalate (columns.map fun column => display str (row.get? column))

/-- A command that shows the rows of a list: those of `name`, as a table with these columns. -/
def list (str : Json → String) (env : Environ) (name : String) (call : Call)
    (header columns : List String) (apiKey : Option String) : CliProg Unit := do
  let rawApiKey ← Eff.liftExcept (requireApiKey env apiKey)
  let decoded ← clientRequest rawApiKey call
  let rows ← Eff.liftExcept (jsonObjectList name decoded)
  if rows = [] then echo ("No " ++ name ++ " found.")
  else do
    echo ("\t".intercalate header)
    forEach (fun row => echo (rowLine str columns row)) rows

/-- `jobs`, `list_jobs` -/
def jobs (str : Json → String) (env : Environ) : Option String → CliProg Unit :=
  list str env "jobs" (.listJobs 100 0) ["ID", "STATUS", "GOAL", "PRIORITY"]
    ["id", "status", "goal_type", "priority"]

/-- `nodes`, `list_nodes` -/
def nodes (str : Json → String) (env : Environ) : Option String → CliProg Unit :=
  list str env "nodes" (.listNodes 100 0) ["ID", "STATUS", "CPU%", "HOST"]
    ["id", "status", "cpu_percent", "host"]

/-- The options of `submit`. -/
structure SubmitOptions where
  inputFile : PurePath
  apiKey : Option String := none
  goal : String := "video_to_subtitle"
  outputs : Option (List String) := none
  language : Option String := none
  quality : String := "standard"
  priority : ℤ := 5
  userRequest : Option String := none

/-- The payload. -/
def SubmitOptions.payload (o : SubmitOptions) : JobCreateRequest where
  goalType := o.goal
  inputFile := o.inputFile.str
  outputs := if o.outputs.getD [] = [] then ["srt", "txt", "json"] else o.outputs.getD []
  language := o.language
  quality := o.quality
  priority := o.priority
  userRequest := o.userRequest

/-- `submit`, `submit_job` -/
def submit (h : Host) (str : Json → String) (env : Environ) (o : SubmitOptions) :
    CliProg Unit := do
  if !(← pathExists (h.expanduser o.inputFile)) then
    .throw (.badParameter "input_file does not exist")
  else do
    let rawApiKey ← Eff.liftExcept (requireApiKey env o.apiKey)
    match ← clientRequest rawApiKey (.createJob o.payload) with
    | some (.obj job) =>
      echo ("Created job " ++ display str (Dict.get? job "id") ++ " (" ++
        display str (Dict.get? job "status") ++ ")")
    | _ => .throw (.uncaught "Controller job creation response must be a JSON object")

/-! ## The doctor -/

/-- The options of `doctor worker`. -/
structure PreflightOptions where
  targets : Option (List String) := none
  sharedRoot : PurePath := PurePath.ofString "/Volumes/MediaOrchard"
  sharedRootMarker : Option PurePath := none
  sharedRootMarkerValue : Option String := none
  runtimePython : String := "python3"
  whisperPython : String := "python3"
  timeoutSeconds : ℤ := 10

/-- The configuration of the preflight of a target. -/
def PreflightOptions.config (o : PreflightOptions) (target : String) : WorkerPreflightConfig where
  target := target
  sharedRoot := o.sharedRoot
  sharedRootMarker := o.sharedRootMarker.map .path
  sharedRootMarkerValue := o.sharedRootMarkerValue
  runtimePythonExecutable := o.runtimePython
  whisperPythonExecutable := o.whisperPython
  timeoutSeconds := o.timeoutSeconds

/-- `'PASS' if ok else 'FAIL'` -/
def passed (ok : Bool) : String := if ok then "PASS" else "FAIL"

/-- The lines on a target's preflight. -/
def reportPreflight (result : WorkerPreflightResult) : CliProg Unit := do
  echo (result.target ++ " " ++ passed result.ok)
  forEach (fun check => echo ("  " ++ passed check.ok ++ " " ++ check.name ++ ": " ++ check.detail))
    result.checks

/-- `doctor_worker` -/
def doctorWorker (h : Host) (int : String → Option ℤ) (repr : String → String)
    (o : PreflightOptions) : CliProg Unit := do
  if o.sharedRootMarkerValue.isSome ∧ o.sharedRootMarker.isNone then
    .throw (.badParameter "--shared-root-marker-value requires --shared-root-marker")
  else do
    let results ← Eff.each (fun target => running (runWorkerPreflight h int repr (o.config target)))
      (targetsOr o.targets)
    forEach reportPreflight results
    if !results.all WorkerPreflightResult.ok then .throw (.exit 1) else pure ()

/-- The options of `doctor worker-bootstrap`. -/
structure BootstrapOptions where
  targets : Option (List String) := none
  installRoot : PurePath := PurePath.ofString "~/.mediaorchard"
  sharedRoot : PurePath := PurePath.ofString "/Volumes/MediaOrchard"
  pythonExecutable : String := "python3"
  packageSpec : String := "mediaorchard==0.1.0"
  packageWheel : Option PurePath := none
  copyWheel : Bool := false
  whisperPackage : String := "mlx-whisper"
  execute : Bool := false
  timeoutSeconds : ℤ := 300

/-- The configuration of the bootstrap of a target. -/
def BootstrapOptions.config (o : BootstrapOptions) (target : String) : WorkerBootstrapConfig where
  target := target
  installRoot := o.installRoot
  sharedRoot := o.sharedRoot
  pythonExecutable := o.pythonExecutable
  packageSpec := o.packageSpec
  packageWheel := o.packageWheel
  copyWheel := o.copyWheel
  whisperPackage := o.whisperPackage
  timeoutSeconds := o.timeoutSeconds

/-- `WorkerBootstrapResult.ok` -/
def bootstrapOk (result : WorkerBootstrapResult) : Bool := result.returncode = 0

/-- The lines on a target's bootstrap. -/
def reportBootstrap (result : WorkerBootstrapResult) : CliProg Unit :=
  if result.executed then do
    echo (result.target ++ " " ++ passed (bootstrapOk result))
    if pyStrip result.stdout ≠ "" then echo (pyStrip result.stdout)
    if pyStrip result.stderr ≠ "" then echo (pyStrip result.stderr) true
  else do
    echo (result.target ++ " DRY-RUN")
    echo result.script

/-- `package_wheel is not None and not package_wheel.expanduser().exists()` -/
def wheelMissing (h : Host) : Option PurePath → CliProg Bool
  | none => pure false
  | some packageWheel => do
    let there ← pathExists (h.expanduser packageWheel)
    pure !there

/-- `doctor_worker_bootstrap` -/
def doctorWorkerBootstrap (h : Host) (o : BootstrapOptions) : CliProg Unit := do
  if ← wheelMissing h o.packageWheel then .throw (.badParameter "wheel does not exist")
  else if o.packageWheel.isSome ∧ o.packageSpec ≠ "mediaorchard==0.1.0" then
    .throw (.badParameter "--package-spec cannot be combined with --wheel")
  else if o.copyWheel ∧ o.packageWheel.isNone then
    .throw (.badParameter "--copy-wheel requires --wheel")
  else do
    let results ← Eff.each (fun target => running (runWorkerBootstrap h (o.config target) o.execute))
      (targetsOr o.targets)
    forEach reportBootstrap results
    if !results.all bootstrapOk then .throw (.exit 1) else pure ()

end Cli

end MediaOrchard
