/-
  The commands that the command line runs on a host or over SSH (`run_command`
  and `shlex` in `worker/bootstrap.py` and `worker/preflight.py`).

  A program of these commands is a program of invocations; what the runner
  answers is left open.  `sshArgv` is the argv of a command on another host.
-/
import MediaOrchard.Shared.Storage
import MediaOrchard.Lib.Shell

namespace MediaOrchard

open Effects

/-- `subprocess.CompletedProcess` -/
structure CompletedProcess where
  returncode : ℤ
  stdout : String
  stderr : String
  deriving DecidableEq

/-- A call of the runner; without `stdin` the command inherits it. -/
structure Invocation where
  argv : List String
  timeoutSeconds : ℤ
  stdin : Option String
  deriving DecidableEq

/-- Programs of invocations; the runner may raise. -/
abbrev RunnerProg (α : Type) := Eff Invocation (fun _ => Except Exn CompletedProcess) Exn α

/-- `runner(argv, timeout_seconds, stdin)` -/
def invoke (argv : List String) (timeoutSeconds : ℤ) (stdin : Option String) :
    RunnerProg CompletedProcess :=
  .op ⟨argv, timeoutSeconds, stdin⟩ Eff.liftExcept

/-- `shlex.quote` -/
def shlexQuote (s : String) : String := String.ofList (Shell.quote s.toList)

@[simp] theorem toList_shlexQuote (s : String) : (shlexQuote s).toList = Shell.quote s.toList :=
  String.toList_ofList

/-- `" ".join(shlex.quote(s) for s in texts)` -/
theorem toList_joined (texts : List String) :
    (" ".intercalate (texts.map shlexQuote)).toList = Shell.joinQuoted (texts.map String.toList) := by
  rw [String.toList_intercalate, List.map_map, Shell.joinQuoted, List.map_map]
  congr 1
  exact List.map_congr_left fun s _ => toList_shlexQuote s

/-- `is_local_target` -/
def isLocalTarget (target : String) : Bool :=
  ["", "local", "localhost", "127.0.0.1"].contains target

/-- The argv of a command over SSH. -/
def sshArgv (target : String) (command : List String) : List String :=
  ["ssh", "-o", "BatchMode=yes", "-o", "ConnectTimeout=5", target] ++ command

end MediaOrchard
