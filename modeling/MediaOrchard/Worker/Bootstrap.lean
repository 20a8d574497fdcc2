/-
  The bootstrap of a Worker's environment (`worker/bootstrap.py`).

  `buildBootstrapScript` is the script; `runWorkerBootstrap` copies the wheel, if
  that is asked for, and gives the script to a shell on its standard input.
-/
import MediaOrchard.Shared.Commands

namespace MediaOrchard

open Posix Effects

/-- `WorkerBootstrapConfig` -/
structure WorkerBootstrapConfig where
  target : String := "local"
  installRoot : PurePath := PurePath.ofString "~/.mediaorchard"
  sharedRoot : PurePath := PurePath.ofString "/Volumes/MediaOrchard"
  pythonExecutable : String := "python3"
  packageSpec : String := "mediaorchard==0.1.0"
  packageWheel : Option PurePath := none
  copyWheel : Bool := false
  whisperPackage : String := "mlx-whisper"
  timeoutSeconds : ℤ := 300

/-- `WorkerBootstrapResult` -/
structure WorkerBootstrapResult where
  target : String
  executed : Bool
  script : String
  returncode : ℤ := 0
  stdout : String := ""
  stderr : String := ""
  deriving DecidableEq

/-- `SHARED_ROOT_DIRS` -/
def sharedRootDirs : List String := ["inbox", "work", "output", "logs", "cache"]

section
variable (h : Host) (config : WorkerBootstrapConfig)

namespace WorkerBootstrapConfig

def expandedInstallRoot : PurePath := h.expanduser config.installRoot

def venvDir : PurePath := (config.expandedInstallRoot h).join "venv"

def packagesDir : PurePath := (config.expandedInstallRoot h).join "packages"

def venvPython : String := (((config.venvDir h).join "bin").join "python").str

def venvMediaorchard : String := (((config.venvDir h).join "bin").join "mediaorchard").str

def wheelTarget : Option PurePath :=
  config.packageWheel.map fun wheel => (config.packagesDir h).join wheel.name

/-- `package_source` -/
def packageSource : String :=
  match config.wheelTarget h with
  | some wheelTarget => wheelTarget.str
  | none => config.packageSpec

/-- The packages that `pip` installs. -/
def packages : List String :=
  [config.packageSource h, config.whisperPackage].filter fun package => package ≠ ""

/-- The directories of the shared root. -/
def sharedDirs : List String :=
  sharedRootDirs.map fun name => ((h.expanduser config.sharedRoot).join name).str

end WorkerBootstrapConfig

/-- The comment on the wheel. -/
def wheelComment (wheel wheelTarget : PurePath) : String :=
  if config.copyWheel then
    " --copy-wheel will copy " ++ wheel.str ++ " to " ++ wheelTarget.str ++ " before execution."
  else " Copy " ++ wheel.str ++ " to " ++ wheelTarget.str ++ " before --execute."

/-- The lines on the wheel before the commands. -/
def commentLines : List String :=
  match config.wheelTarget h, config.packageWheel with
  | some wheelTarget, some wheel => ["#" ++ wheelComment config wheel wheelTarget]
  | _, _ => []

/-- The lines that check that the wheel is there. -/
def wheelLines : List String :=
  match config.wheelTarget h with
  | some wheelTarget =>
    ["mkdir -p " ++ shlexQuote (config.packagesDir h).str, "test -f " ++ shlexQuote wheelTarget.str]
  | none => []

/-- `build_bootstrap_script` -/
def buildBootstrapScript : String :=
  let installRoot := config.expandedInstallRoot h
  let venvDir := config.venvDir h
  let python := shlexQuote config.pythonExecutable
  let venvPython := shlexQuote (config.venvPython h)
  let venvMediaorchard := shlexQuote (config.venvMediaorchard h)
  let packageArgs := " ".intercalate ((config.packages h).map shlexQuote)
  let sharedDirs := " ".intercalate ((config.sharedDirs h).map shlexQuote)
  "\n".intercalate (commentLines h config ++
    ["set -euo pipefail",
      "export PATH=\"/opt/homebrew/bin:/usr/local/bin:$PATH\"",
      python ++ " - <<'PY_VERSION'",
      "import sys",
      "raise SystemExit(0 if sys.version_info >= (3, 11) else 1)",
      "PY_VERSION",
      "mkdir -p " ++ sharedDirs,
      "mkdir -p " ++ shlexQuote installRoot.str,
      python ++ " -m venv " ++ shlexQuote venvDir.str,
      venvPython ++ " -m pip install -U pip"] ++
    wheelLines h config ++
    [venvPython ++ " -m pip install " ++ packageArgs,
      "command -v ffmpeg >/dev/null",
      "command -v ffprobe >/dev/null",
      venvPython ++ " - <<'PY_WHISPER'",
      "import mlx_whisper",
      "print(getattr(mlx_whisper, '__version__', 'present'))",
      "PY_WHISPER",
      venvMediaorchard ++ " --help >/dev/null"])

/-- `build_bootstrap_command_argv` -/
def buildBootstrapCommandArgv (target : String) : List String :=
  if isLocalTarget target then ["bash", "-s"] else sshArgv target ["bash", "-s"]

/-- `build_wheel_copy_command_argvs` -/
def buildWheelCopyCommandArgvs : List (List String) :=
  match config.packageWheel with
  | none => []
  | some packageWheel =>
    let wheel := h.expanduser packageWheel
    let packagesDir := config.packagesDir h
    let wheelTarget := packagesDir.join wheel.name
    if isLocalTarget config.target then
      [["mkdir", "-p", packagesDir.str], ["cp", wheel.str, wheelTarget.str]]
    else
      [sshArgv config.target ["mkdir", "-p", shlexQuote packagesDir.str],
        ["scp", wheel.str, config.target ++ ":" ++ shlexQuote wheelTarget.str]]

/-- The result of the command that ended the bootstrap. -/
def bootstrapResult (completed : CompletedProcess) : WorkerBootstrapResult where
  target := config.target
  executed := true
  script := buildBootstrapScript h config
  returncode := completed.returncode
  stdout := completed.stdout
  stderr := completed.stderr

/-- The commands that copy the wheel, up to the first one that fails. -/
def copyWheelCommands : List (List String) → RunnerProg (Option CompletedProcess)
  | [] => pure none
  | argv :: argvs => do
    let completed ← invoke argv config.timeoutSeconds (some "")
    if completed.returncode ≠ 0 then pure (some completed) else copyWheelCommands argvs

/-- `run_worker_bootstrap` -/
def runWorkerBootstrap (execute : Bool) : RunnerProg WorkerBootstrapResult :=
  let script := buildBootstrapScript h config
  if !execute then pure { target := config.target, executed := false, script := script }
  else do
    let failed ←
      if config.copyWheel ∧ config.packageWheel.isSome then
        copyWheelCommands config (buildWheelCopyCommandArgvs h config)
      else pure none
    match failed with
    | some completed => pure (bootstrapResult h config completed)
    | none => do
      let completed ←
        invoke (buildBootstrapCommandArgv config.target) config.timeoutSeconds (some script)
      pure (bootstrapResult h config completed)

end

end MediaOrchard
