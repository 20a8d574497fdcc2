/-
  The Worker's tool calls (`worker/executor.py`).

  `execute` is a program on the disk: the builder of the tool checks its
  arguments, resolves paths and creates directories, then the runner is called
  with the argv, and its output is logged.  The runner is `subprocess.run`; on a
  `Machine` its calls are recorded.
-/
import MediaOrchard.Shared.Storage

namespace MediaOrchard

open Posix Effects

/-- `ToolExecutionContext`; paths are given by their texts. -/
structure ToolExecutionContext where
  jobId : String
  stepId : String
  nodeId : String
  sharedRoot : String
  workDir : String
  outputDir : String
  logDir : String

/-- `ToolExecutionResult` -/
structure ToolExecutionResult where
  toolName : String
  status : String
  argv : List String
  exitCode : ℤ
  stdoutPath : PurePath
  stderrPath : PurePath
  outputJson : Dict

/-- `CommandToolSpec` -/
structure CommandToolSpec where
  name : String
  buildArgv : Json → ToolExecutionContext → FileProg (List String)

/-- `ToolExecutionError(text)` -/
def toolExecutionError (text : String) : Exn := ⟨.toolExecutionError, text⟩

/-- `_required_str` -/
def requiredStr (argsJson : Json) (key : String) : Except Exn String :=
  match argsJson.get key with
  | .error e => .error e
  | .ok (some (.str value)) =>
    if value = "" then .error (toolExecutionError ("missing required string argument: " ++ key))
    else .ok value
  | .ok _ => .error (toolExecutionError ("missing required string argument: " ++ key))

/-! ## Resolvers -/

section
variable (h : Host)

/-- The path of the allowlist, as `Path`. -/
def allowlisted (path : String) (roots : List String) : Except Exn PurePath :=
  match h.resolveAllowlistedPath path roots with
  | .error exc => .error (toolExecutionError exc.detail)
  | .ok resolved => .ok (PurePath.ofString resolved.str)

/-- The body of `_resolve_input` and `_resolve_intermediate`. -/
def resolveExisting (path : String) (roots : List String) : FileProg PurePath := do
  let resolved ← Eff.liftExcept (allowlisted h path roots)
  if !(← FileProg.exist resolved) then
    .throw (toolExecutionError ("input does not exist: " ++ resolved.str))
  else return resolved

/-- `_resolve_input` -/
def resolveInput (path : String) (context : ToolExecutionContext) : FileProg PurePath :=
  resolveExisting h path [context.sharedRoot]

/-- `_resolve_intermediate` -/
def resolveIntermediate (path : String) (context : ToolExecutionContext) : FileProg PurePath :=
  resolveExisting h path [context.sharedRoot, context.workDir]

/-- `_resolve_output` -/
def resolveOutput (path : String) (context : ToolExecutionContext) : FileProg PurePath := do
  let resolved ← Eff.liftExcept (allowlisted h path [context.workDir, context.outputDir])
  FileProg.mkdirs resolved.parent
  return resolved

/-- `_resolve_output_dir` -/
def resolveOutputDir (path : String) (context : ToolExecutionContext) : FileProg PurePath := do
  let resolved ← resolveOutput h path context
  FileProg.mkdirs resolved
  return resolved

/-! ## Builders -/

/-- `_build_probe_media_argv` -/
def buildProbeMediaArgv (argsJson : Json) (context : ToolExecutionContext) :
    FileProg (List String) := do
  let inputFile ← resolveInput h (← Eff.liftExcept (requiredStr argsJson "input_file")) context
  return ["ffprobe", "-v", "error", "-print_format", "json", "-show_format", "-show_streams",
    inputFile.str]

/-- `_build_extract_audio_argv` -/
def buildExtractAudioArgv (argsJson : Json) (context : ToolExecutionContext) :
    FileProg (List String) := do
  let inputFile ← resolveInput h (← Eff.liftExcept (requiredStr argsJson "input_file")) context
  let outputAudio ← resolveOutput h (← Eff.liftExcept (requiredStr argsJson "output_audio")) context
  return ["ffmpeg", "-y", "-i", inputFile.str, "-vn", "-ac", "1", "-ar", "16000", outputAudio.str]

/-- The `language` of `_build_transcribe_audio_argv`. -/
def languageArg (argsJson : Json) : Except Exn String :=
  match argsJson.get "language" with
  | .error e => .error e
  | .ok none | .ok (some .null) => .ok "auto"
  | .ok (some (.str language)) => .ok (if language = "" then "auto" else language)
  | .ok (some _) => .error (toolExecutionError "language must be a string")

/-- `_build_transcribe_audio_argv` -/
def buildTranscribeAudioArgv (argsJson : Json) (context : ToolExecutionContext) :
    FileProg (List String) := do
  let audioFile ←
    resolveIntermediate h (← Eff.liftExcept (requiredStr argsJson "audio_file")) context
  let transcriptDir ←
    resolveOutputDir h (← Eff.liftExcept (requiredStr argsJson "transcript_dir")) context
  let language ← Eff.liftExcept (languageArg argsJson)
  return ["mlx-whisper", audioFile.str, "--language", language, "--output-dir", transcriptDir.str]

/-- `build_default_command_tools` -/
def buildDefaultCommandTools : List (String × CommandToolSpec) :=
  [("probe_media", ⟨"probe_media", buildProbeMediaArgv h⟩),
    ("extract_audio", ⟨"extract_audio", buildExtractAudioArgv h⟩),
    ("transcribe_audio", ⟨"transcribe_audio", buildTranscribeAudioArgv h⟩)]

end

/-! ## `ToolExecutor` -/

/-- `_validate_argv`; an argv of the model is a list of strings. -/
def validateArgv (argv : List String) : Except Exn Unit :=
  if argv = [] then .error (toolExecutionError "argv must not be empty")
  else if argv.any fun part => part = "" then
    .error (toolExecutionError "argv must contain only non-empty strings")
  else .ok ()

/-- `_write_tool_logs`: the texts of the errors met. -/
def writeToolLogs (errors : List String) : List (PurePath × String) → FileProg (List String)
  | [] => .ret errors
  | (path, content) :: entries => .op (.write path content) fun r =>
    match r with
    | .ok () => writeToolLogs errors entries
    | .error e =>
      if e.isOSError then writeToolLogs (errors ++ [path.name ++ ": " ++ e.text]) entries
      else .throw e.exn

/-- Exit code and streams of what the runner returned or raised. -/
def Completed.streams : Completed → ℤ × String × String
  | exited returncode stdout stderr => (returncode, stdout, stderr)
  | timedOut timeout output stderr =>
    (-1, output.toText,
      stderr.toText ++ "tool timed out after " ++ toString timeout ++ " seconds" ++ "\n")

/-- `execute` -/
def execute (tools : List (String × CommandToolSpec)) (timeoutSeconds : ℤ) (toolName : String)
    (argsJson : Json) (context : ToolExecutionContext) : FileProg ToolExecutionResult := do
  match tools.lookup toolName with
  | none => .throw (toolExecutionError ("unknown tool: " ++ toolName))
  | some spec =>
    let argv ← spec.buildArgv argsJson context
    Eff.liftExcept (validateArgv argv)
    let logDir := PurePath.ofString context.logDir
    FileProg.mkdirs logDir
    let stdoutPath := logDir.join (context.stepId ++ "." ++ toolName ++ ".stdout.log")
    let stderrPath := logDir.join (context.stepId ++ "." ++ toolName ++ ".stderr.log")
    let completed ← FileProg.command argv none timeoutSeconds
    let (exitCode, stdout, stderr) := completed.streams
    let logWriteErrors ← writeToolLogs [] [(stdoutPath, stdout), (stderrPath, stderr)]
    let exitCode := if logWriteErrors = [] then exitCode else -2
    return {
      toolName := toolName
      status := if exitCode = 0 then "completed" else "failed"
      argv := argv
      exitCode := exitCode
      stdoutPath := stdoutPath
      stderrPath := stderrPath
      outputJson := [("tool_name", .str toolName), ("argv", .arr (argv.map .str)),
        ("stdout_path", .str stdoutPath.str), ("stderr_path", .str stderrPath.str),
        ("exit_code", .int exitCode), ("log_write_errors", .arr (logWriteErrors.map .str))] }

/-! ## Machines -/

/-- A disk, and the calls of the runner so far. -/
@[ext]
structure Machine where
  disk : Disk
  calls : List (List String)

/-- The calls that an operation adds. -/
def FileOp.calls : FileOp → List (List String)
  | command argv _ _ => [argv]
  | _ => []

/-- What an operation may answer and do to a machine. -/
def Machine.Step (h : Host) (cmd : CommandSem) : Sem FileOp FileOp.Ans Machine :=
  fun o m r m' => o.Step h cmd m.disk r m'.disk ∧ m'.calls = m.calls ++ o.calls

end MediaOrchard
