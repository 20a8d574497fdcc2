/-
  The preflight of a Worker (`worker/preflight.py`).

  A check is a script that a shell runs on the host itself or over SSH, and what
  is read off its result.  What `int()` reads and `repr` of a string are
  parameters.
-/
import MediaOrchard.Shared.Commands
import MediaOrchard.Shared.Basic

namespace MediaOrchard

open Posix Effects

/-- `PreflightCheck` -/
structure PreflightCheck where
  name : String
  ok : Bool
  detail : String
  deriving DecidableEq

/-- `str | Path` -/
inductive MarkerPath where
  | text (s : String)
  | path (p : PurePath)

/-- `Path(marker)` -/
def MarkerPath.toPath : MarkerPath → PurePath
  | text s => PurePath.ofString s
  | path p => p

/-- `WorkerPreflightConfig` -/
structure WorkerPreflightConfig where
  target : String := "local"
  sharedRoot : PurePath := PurePath.ofString "/Volumes/MediaOrchard"
  sharedRootMarker : Option MarkerPath := none
  sharedRootMarkerValue : Option String := none
  runtimePythonExecutable : String := "python3"
  whisperPythonExecutable : String := "python3"
  timeoutSeconds : ℤ := 10

/-- `WorkerPreflightResult` -/
structure WorkerPreflightResult where
  target : String
  checks : List PreflightCheck

/-- `WorkerPreflightResult.ok` -/
def WorkerPreflightResult.ok (result : WorkerPreflightResult) : Bool :=
  result.checks.all PreflightCheck.ok

/-- `build_command_argv` -/
def buildCommandArgv (target script : String) : List String :=
  if isLocalTarget target then ["sh", "-lc", script]
  else sshArgv target ["sh", "-lc", shlexQuote script]

/-- `_detail` -/
def CompletedProcess.detail (completed : CompletedProcess) : String :=
  if pyStrip completed.stderr ≠ "" then pyStrip completed.stderr
  else if pyStrip completed.stdout ≠ "" then pyStrip completed.stdout
  else "exit " ++ toString completed.returncode

/-! ## The scripts -/

/-- The script of `check_python_version`. -/
def pythonVersionScript (python : String) : String :=
  python ++ " - <<'PY'\n" ++
    "import sys\n" ++
    "print(f'\x7bsys.version_info.major\x7d.\x7bsys.version_info.minor\x7d." ++
      "\x7bsys.version_info.micro\x7d')\n" ++
    "PY"

/-- The script of `check_mlx_whisper`. -/
def mlxWhisperScript (python : String) : String :=
  python ++ " - <<'PY'\n" ++
    "import mlx_whisper\n" ++
    "print(getattr(mlx_whisper, '__version__', 'present'))\n" ++
    "PY"

/-- The script of `check_shared_root`. -/
def sharedRootScript (sharedRoot : String) : String :=
  "test -d " ++ sharedRoot ++ " && printf '%s\\n' " ++ sharedRoot

/-! ## The checks -/

section
variable (int : String → Option ℤ) (repr : String → String) (config : WorkerPreflightConfig)

/-- `runner(build_command_argv(config.target, script), config.timeout_seconds)` -/
def runScript (script : String) : RunnerProg CompletedProcess :=
  invoke (buildCommandArgv config.target script) config.timeoutSeconds none

/-- `int(parts[0]), int(parts[1])` of the parts of a version. -/
def majorMinor (version : String) : Option (ℤ × ℤ) :=
  match pySplit '.' version with
  | major :: minor :: _ => do
    let major ← int major
    let minor ← int minor
    pure (major, minor)
  | _ => none

/-- `(major, minor) >= (3, 11)` -/
def supportsPython (version : ℤ × ℤ) : Bool :=
  3 < version.1 ∨ (version.1 = 3 ∧ 11 ≤ version.2)

/-- `check_python_version` -/
def checkPythonVersion (python : String) : RunnerProg PreflightCheck := do
  let completed ← runScript config (pythonVersionScript python)
  let version := pyStrip completed.stdout
  if completed.returncode ≠ 0 then pure ⟨"python>=3.11", false, completed.detail⟩
  else match majorMinor int version with
    | none => pure ⟨"python>=3.11", false, "unparseable version: " ++ version⟩
    | some parsed =>
      pure ⟨"python>=3.11", supportsPython parsed,
        if supportsPython parsed then version else "found " ++ version⟩

/-- A check that shows the output of its script. -/
def checkOutput (name script : String) : RunnerProg PreflightCheck := do
  let completed ← runScript config script
  let ok : Bool := completed.returncode = 0
  pure ⟨name, ok, if !ok then completed.detail else pyStrip completed.stdout⟩

/-- `check_command` -/
def checkCommand (command : String) : RunnerProg PreflightCheck :=
  checkOutput config command ("command -v " ++ command)

/-- `check_mlx_whisper` -/
def checkMlxWhisper (python : String) : RunnerProg PreflightCheck :=
  checkOutput config "mlx_whisper" (mlxWhisperScript python)

/-- `check_shared_root` -/
def checkSharedRoot (sharedRoot : String) : RunnerProg PreflightCheck :=
  checkOutput config "shared_root" (sharedRootScript sharedRoot)

/-- `check_shared_root_marker` -/
def checkSharedRootMarker (markerPath : String) : RunnerProg PreflightCheck := do
  let completed ← runScript config ("cat " ++ markerPath)
  if completed.returncode ≠ 0 then pure ⟨"shared_root_marker", false, completed.detail⟩
  else
    let actual := pyStrip completed.stdout
    match config.sharedRootMarkerValue with
    | none => pure ⟨"shared_root_marker", true, actual⟩
    | some expected =>
      if actual ≠ expected then
        pure ⟨"shared_root_marker", false, "expected " ++ repr expected ++ ", found " ++ repr actual⟩
      else pure ⟨"shared_root_marker", true, actual⟩

end

/-- `resolve_marker_path` -/
def resolveMarkerPath (h : Host) (sharedRoot : PurePath) (marker : MarkerPath) : PurePath :=
  let expandedMarker := h.expanduser marker.toPath
  if expandedMarker.absolute then expandedMarker
  else (h.expanduser sharedRoot).append expandedMarker

/-- `run_worker_preflight` -/
def runWorkerPreflight (h : Host) (int : String → Option ℤ) (repr : String → String)
    (config : WorkerPreflightConfig) : RunnerProg WorkerPreflightResult := do
  let runtimePython := shlexQuote config.runtimePythonExecutable
  let whisperPython := shlexQuote config.whisperPythonExecutable
  let sharedRoot := shlexQuote (h.expanduser config.sharedRoot).str
  let version ← checkPythonVersion int config runtimePython
  let ffmpeg ← checkCommand config "ffmpeg"
  let ffprobe ← checkCommand config "ffprobe"
  let whisper ← checkMlxWhisper config whisperPython
  let root ← checkSharedRoot config sharedRoot
  let checks := [version, ffmpeg, ffprobe, whisper, root]
  match config.sharedRootMarker with
  | none => pure ⟨config.target, checks⟩
  | some marker => do
    let markerPath := resolveMarkerPath h config.sharedRoot marker
    let check ← checkSharedRootMarker repr config (shlexQuote markerPath.str)
    pure ⟨config.target, checks ++ [check]⟩

end MediaOrchard
