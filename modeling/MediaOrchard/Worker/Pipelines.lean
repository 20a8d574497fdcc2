/-
  The pipelines of the Worker (`worker/mock_pipeline.py`,
  `worker/real_media_smoke.py`) and the runner of a claimed step
  (`run_claimed_pipeline_step` of `cli/runtime.py`).

  All are programs on the disk.  The paths come as texts from the input of the
  step.  `Library` holds the functions of the standard library on texts whose
  result nothing else depends on.  The times of subtitles are binary64 numbers, as
  in the source; `formatSrtTimestamp` is their format in exact arithmetic.
-/
import MediaOrchard.Shared.Storage
import MediaOrchard.Worker.Runtime

namespace MediaOrchard

open Posix Effects

/-- `json.dumps(v, indent=2, sort_keys=True)`, `json.loads`, `str(v)` of a value
    that is not a string, and `repr` of one that is. -/
structure Library where
  dumps : Json → String
  loads : String → Except String Json
  str : Json → String
  repr : String → String

/-- `RealMediaSmokeError(text)` -/
def realMediaSmokeError (text : String) : Exn := ⟨.realMediaSmokeError, text⟩

/-- `RuntimeError(text)` -/
def runtimeError (text : String) : Exn := ⟨.runtimeError, text⟩

/-- `_write_text`, `_write_bytes` -/
def writeText (path : PurePath) (content : String) : FileProg Unit := do
  FileProg.mkdirs path.parent
  FileProg.write path content

/-- `_write_json` -/
def writeJson (lib : Library) (path : PurePath) (payload : Json) : FileProg Unit :=
  writeText path (lib.dumps payload ++ "\n")

/-- `sorted(set(requested_outputs) - SUPPORTED_OUTPUTS)` -/
def unsupportedOutputs (requestedOutputs : List String) : List String :=
  (requestedOutputs.filter fun o => o ∉ ["srt", "txt", "json"]).eraseDups.mergeSort
    fun a b => decide (a ≤ b)

/-- `language or "auto"` -/
def languageOrAuto : Option String → String
  | none => "auto"
  | some language => if language = "" then "auto" else language

/-! ## The mock pipeline -/

/-- `MockPipelineResult` -/
structure MockPipelineResult where
  status : String
  steps : List String
  outputDir : PurePath
  workDir : PurePath
  errorMessage : Option String := none

/-- `VIDEO_TO_SUBTITLE_STEPS` -/
def videoToSubtitleSteps : List String :=
  ["probe_media", "extract_audio", "transcribe_audio", "collect_outputs", "quality_check",
    "write_report"]

/-- `_write_log` -/
def writeLog (logsDir : PurePath) (stepName message : String) : FileProg Unit :=
  writeText (logsDir.join (stepName ++ ".log")) (message ++ "\n")

/-- `run_mock_video_to_subtitle_pipeline` -/
def runMockVideoToSubtitlePipeline (lib : Library) (inputFile outputDir workDir : String)
    (requestedOutputs : List String) (language : Option String) (jobId : String) :
    FileProg MockPipelineResult := do
  let unsupported := unsupportedOutputs requestedOutputs
  let outputPath := PurePath.ofString outputDir
  let workPath := PurePath.ofString workDir
  if unsupported ≠ [] then
    return {
      status := "failed"
      steps := []
      outputDir := outputPath
      workDir := workPath
      errorMessage := some ("unsupported outputs: " ++ ", ".intercalate unsupported) }
  else
    let source := PurePath.ofString inputFile
    FileProg.mkdirs outputPath
    FileProg.mkdirs workPath
    let logsDir := outputPath.join "logs"
    FileProg.mkdirs logsDir
    writeLog logsDir "probe_media" ("probed " ++ source.name)
    let mediaMeta : Json := .obj [("job_id", .str jobId), ("input_file", .str source.str),
      ("duration_seconds", .float 4), ("video_codec", .str "mock"), ("audio_codec", .str "mock")]
    writeJson lib ((workPath.join "probe_media").join "input_meta.json") mediaMeta
    writeJson lib (outputPath.join "input_meta.json") mediaMeta
    writeLog logsDir "extract_audio" "created mock 16 kHz mono audio"
    let audioBytes := "MOCK-WAV-DATA\n"
    writeText (((workPath.join "extract_audio").join "attempt_1").join "audio.wav") audioBytes
    writeText (outputPath.join "audio.wav") audioBytes
    writeLog logsDir "transcribe_audio" "created mock transcript and subtitle"
    let transcriptText := "Mock transcript for " ++ source.name ++ "."
    let transcriptJson : Json := .obj [("language", .str (languageOrAuto language)),
      ("text", .str transcriptText),
      ("segments", .arr [.obj [("start", .float 0), ("end", .float 2),
        ("text", .str transcriptText)]])]
    let subtitle := "1\n00:00:00,000 --> 00:00:02,000\n" ++ transcriptText ++ "\n"
    let transcriptWork := (workPath.join "transcribe_audio").join "attempt_1"
    writeText (transcriptWork.join "transcript.txt") (transcriptText ++ "\n")
    writeJson lib (transcriptWork.join "transcript.json") transcriptJson
    writeText (transcriptWork.join "subtitle.srt") subtitle
    writeLog logsDir "collect_outputs" "published requested outputs"
    FileProg.onlyIf ("txt" ∈ requestedOutputs) do
      writeText (outputPath.join "transcript.txt") (transcriptText ++ "\n")
    FileProg.onlyIf ("json" ∈ requestedOutputs) do
      writeJson lib (outputPath.join "transcript.json") transcriptJson
    FileProg.onlyIf ("srt" ∈ requestedOutputs) do
      writeText (outputPath.join "subtitle.srt") subtitle
    writeLog logsDir "quality_check" "quality checks passed"
    let txt ← FileProg.isFile (outputPath.join "transcript.txt")
    let json ← FileProg.isFile (outputPath.join "transcript.json")
    let srt ← FileProg.isFile (outputPath.join "subtitle.srt")
    let qualityReport : Json := .obj [("status", .str "passed"),
      ("checks", .obj [("transcript_txt_exists", .bool txt), ("transcript_json_exists", .bool json),
        ("subtitle_srt_exists", .bool srt),
        ("subtitle_text_non_empty", .bool (pyStrip subtitle ≠ ""))]),
      ("warnings", .arr []), ("recommendations", .arr [])]
    writeJson lib (outputPath.join "quality_report.json") qualityReport
    writeLog logsDir "write_report" "wrote human-readable report"
    let report := "\n".intercalate ["# MediaOrchard Job Report", "", "- Job: " ++ jobId,
      "- Input: " ++ source.name, "- Status: completed", "- Quality: passed", ""]
    writeText (outputPath.join "report.md") report
    return {
      status := "completed"
      steps := videoToSubtitleSteps
      outputDir := outputPath
      workDir := workPath }

/-! ## Subtitles -/

/-- `f"{n:0w}"`: the sign counts. -/
def zeroPad (w : ℕ) (n : ℤ) : String :=
  let sign := if n < 0 then "-" else ""
  let digits := toString n.natAbs
  sign ++ String.ofList (List.replicate (w - sign.length - digits.length) '0') ++ digits

/-- `format_srt_timestamp`, from the number of milliseconds on. -/
def srtTimestamp (milliseconds : ℤ) : String :=
  let hours := milliseconds / 3600000
  let remainder := milliseconds % 3600000
  let minutes := remainder / 60000
  let remainder := remainder % 60000
  let secs := remainder / 1000
  let millis := remainder % 1000
  zeroPad 2 hours ++ ":" ++ zeroPad 2 minutes ++ ":" ++ zeroPad 2 secs ++ "," ++ zeroPad 3 millis

/-- `format_srt_timestamp` in exact arithmetic. -/
def formatSrtTimestamp (seconds : ℚ) : String := srtTimestamp (roundHalfEven (seconds * 1000))

/-- `int(round(x))` -/
def intRound : PyFloat → Except Exn ℤ
  | .fin x => .ok (roundHalfEven x)
  | .inf _ => .error ⟨.overflowError, "cannot convert float infinity to integer"⟩
  | .nan => .error ⟨.valueError, "cannot convert float NaN to integer"⟩

/-- `x * 1000` -/
def PyFloat.timesThousand : PyFloat → PyFloat
  | fin x => .ofRat (x * 1000)
  | x => x

/-- `format_srt_timestamp` -/
def formatSrtTimestamp? (seconds : PyFloat) : Except Exn String :=
  srtTimestamp <$> intRound seconds.timesThousand

/-- `float(v)` -/
def Json.toFloat (lib : Library) : Json → Except Exn PyFloat
  | .bool b => .ok (.fin (if b then 1 else 0))
  | .int n => match floatOfInt n with
    | .ok x => .ok (.fin x)
    | .error _ => .error ⟨.overflowError, "int too large to convert to float"⟩
  | .float q => .ok (.ofRat q)
  | .str s => (floatOfString s).mapError fun _ =>
    ⟨.valueError, "could not convert string to float: " ++ lib.repr s⟩
  | v => .error ⟨.typeError,
    "float() argument must be a string or a real number, not '" ++ v.typeName ++ "'"⟩

/-- The values that `for x in v` runs through. -/
def Json.items : Json → Except Exn (List Json)
  | .arr xs => .ok xs
  | .obj kvs => .ok (kvs.map fun kv => .str kv.1)
  | .str s => .ok (s.toList.map fun c => .str c.toString)
  | v => .error ⟨.typeError, "'" ++ v.typeName ++ "' object is not iterable"⟩

/-- `(v.get("text") or "").strip()` -/
def textOf (v : Json) : Except Exn String := do
  match ← v.get "text" with
  | none => return ""
  | some text =>
    if text.truthy then
      match text with
      | .str s => return pyStrip s
      | _ => .error (attributeError text "strip")
    else return ""

/-- `format_srt_timestamp(float(segment.get(key, 0.0)))` -/
def segmentTime (lib : Library) (segment : Json) (key : String) : Except Exn String := do
  let seconds ← ((← segment.get key).getD (.float 0)).toFloat lib
  formatSrtTimestamp? seconds

/-- The chunks of `_segments_to_srt`, the first being the `index`-th. -/
def srtChunks (lib : Library) (index : ℕ) : List Json → Except Exn (List String)
  | [] => .ok []
  | segment :: segments => do
    let start ← segmentTime lib segment "start"
    let stop ← segmentTime lib segment "end"
    let text ← textOf segment
    let chunks ← srtChunks lib (index + 1) segments
    return (toString index ++ "\n" ++ start ++ " --> " ++ stop ++ "\n" ++ text ++ "\n") :: chunks

/-- `_segments_to_srt` -/
def segmentsToSrt (lib : Library) (segments : Json) : Except Exn String := do
  let chunks ← srtChunks lib 1 (← segments.items)
  return "\n".intercalate chunks

/-! ## The quality report -/

/-- The quality report; its warnings and recommendations are empty. -/
structure QualityReport where
  status : String
  checks : List (String × Bool)

def QualityReport.toJson (report : QualityReport) : Json :=
  .obj [("status", .str report.status),
    ("checks", .obj (report.checks.map fun check => (check.1, .bool check.2))),
    ("warnings", .arr []), ("recommendations", .arr [])]

/-- `str(checks)` -/
def checksText (checks : List (String × Bool)) : String :=
  "\x7b" ++ ", ".intercalate (checks.map fun check =>
    "'" ++ check.1 ++ "': " ++ if check.2 then "True" else "False") ++ "\x7d"

/-- `_non_empty` -/
def nonEmpty (path : PurePath) : FileProg Bool := do
  if ← FileProg.isFile path then
    let size ← FileProg.size path
    return decide (size > 0)
  else return false

/-- Whether one of the files in a directory is not empty; the search stops there. -/
def anyNonEmpty (dir : PurePath) : List String → FileProg Bool
  | [] => return false
  | name :: names => do
    if ← nonEmpty (dir.join name) then return true
    else anyNonEmpty dir names

/-- `build_quality_report` -/
def buildQualityReport (outputDir : PurePath) : FileProg QualityReport := do
  let logsDir := outputDir.join "logs"
  let inputMeta ← nonEmpty (outputDir.join "input_meta.json")
  let audio ← nonEmpty (outputDir.join "audio.wav")
  let txt ← nonEmpty (outputDir.join "transcript.txt")
  let json ← nonEmpty (outputDir.join "transcript.json")
  let srt ← nonEmpty (outputDir.join "subtitle.srt")
  let isDir ← FileProg.isDir logsDir
  let logs ← if isDir then FileProg.iterdir logsDir >>= anyNonEmpty logsDir else pure false
  let checks := [("input_meta_json_exists", inputMeta), ("audio_wav_exists", audio),
    ("transcript_txt_exists", txt), ("transcript_json_exists", json), ("subtitle_srt_exists", srt),
    ("logs_exist", logs)]
  return {
    status := if checks.all Prod.snd then "passed" else "failed"
    checks := checks }

/-- `write_human_report` -/
def writeHumanReport (lib : Library) (outputDir : PurePath)
    (jobId inputName transcriptText model : String) (qualityReport : QualityReport) :
    FileProg Unit := do
  writeJson lib (outputDir.join "quality_report.json") qualityReport.toJson
  let body := "\n".intercalate ["# MediaOrchard Real Media Smoke Report", "", "- Job: " ++ jobId,
    "- Input: " ++ inputName, "- Whisper model: " ++ model,
    "- Quality: " ++ qualityReport.status, "", "## Transcript Preview", "",
    pyStrip transcriptText, ""]
  writeText (outputDir.join "report.md") body

/-! ## The real pipeline -/

/-- `RealMediaPipelineResult` -/
structure RealMediaPipelineResult where
  status : String
  steps : List String
  outputDir : PurePath
  workDir : PurePath
  transcriptText : String
  qualityReport : QualityReport
  errorMessage : Option String := none

/-- `_run_command`; `output` is the path the command is told to write, and the
    result is the standard output. -/
def runCommand (name : String) (argv : List String) (output : Option PurePath)
    (logsDir : PurePath) (timeoutSeconds : ℤ) : FileProg String := do
  match ← FileProg.command argv output timeoutSeconds with
  | .timedOut timeout out err =>
    writeText (logsDir.join (name ++ ".stdout.log")) out.toText
    writeText (logsDir.join (name ++ ".stderr.log"))
      (err.toText ++ "command timed out after " ++ toString timeout ++ " seconds\n")
    .throw (realMediaSmokeError (name ++ " timed out after " ++ toString timeout ++ " seconds"))
  | .exited returncode stdout stderr =>
    writeText (logsDir.join (name ++ ".stdout.log")) stdout
    writeText (logsDir.join (name ++ ".stderr.log")) stderr
    if returncode ≠ 0 then
      .throw (realMediaSmokeError (name ++ " failed with exit code " ++ toString returncode))
    else return stdout

/-- `_TRANSCRIBE_CODE` -/
def transcribeCode : String := "\n".intercalate ["", "import json", "import sys",
  "import mlx_whisper", "", "audio_path, output_path, model = sys.argv[1:4]",
  "language = sys.argv[4] if len(sys.argv) > 4 else \"en\"", "if language == \"auto\":",
  "    language = None", "result = mlx_whisper.transcribe(", "    audio_path,",
  "    path_or_hf_repo=model,", "    verbose=False,", "    language=language,", ")",
  "with open(output_path, \"w\") as f:", "    json.dump(result, f, indent=2)", ""]

/-- `payload.get("segments")`, or one segment with the whole text. -/
def segmentsOf (payload : Json) (transcriptText : String) : Except Exn Json := do
  match ← payload.get "segments" with
  | some segments =>
    return if segments.truthy then segments else whole
  | none => return whole
where
  whole : Json := .arr [.obj [("start", .float 0), ("end", .float 1), ("text", .str transcriptText)]]

/-- `run_real_video_to_subtitle_pipeline` -/
def runRealVideoToSubtitlePipeline (lib : Library) (h : Host)
    (inputFile outputDir workDir : String) (requestedOutputs : List String)
    (language : Option String) (jobId pythonExecutable whisperModel : String)
    (timeoutSeconds : ℤ) : FileProg RealMediaPipelineResult := do
  let unsupported := unsupportedOutputs requestedOutputs
  if unsupported ≠ [] then
    .throw (realMediaSmokeError ("unsupported outputs: " ++ ", ".intercalate unsupported))
  else
    let source := PurePath.ofString (h.resolve inputFile).str
    if !(← FileProg.exist source) then
      .throw (realMediaSmokeError ("input does not exist: " ++ source.str))
    else
      let outputPath := PurePath.ofString outputDir
      let workPath := PurePath.ofString workDir
      let logsDir := outputPath.join "logs"
      FileProg.mkdirs outputPath
      FileProg.mkdirs workPath
      FileProg.mkdirs logsDir
      let audioWav := outputPath.join "audio.wav"
      let probe ← runCommand "ffprobe" ["ffprobe", "-v", "error", "-print_format", "json",
        "-show_format", "-show_streams", source.str] none logsDir timeoutSeconds
      writeText (outputPath.join "input_meta.json") probe
      let _ ← runCommand "ffmpeg_extract_audio" ["ffmpeg", "-y", "-i", source.str, "-vn", "-ac",
        "1", "-ar", "16000", audioWav.str] (some audioWav) logsDir timeoutSeconds
      let rawTranscriptJson := workPath.join "whisper_result.json"
      let _ ← runCommand "mlx_whisper" [pythonExecutable, "-c", transcribeCode, audioWav.str,
        rawTranscriptJson.str, whisperModel, languageOrAuto language] (some rawTranscriptJson)
        logsDir timeoutSeconds
      let raw ← FileProg.readText rawTranscriptJson
      let transcriptPayload ← Eff.liftExcept ((lib.loads raw).mapError fun e => ⟨.valueError, e⟩)
      let transcriptText ← Eff.liftExcept (textOf transcriptPayload)
      let segments ← Eff.liftExcept (segmentsOf transcriptPayload transcriptText)
      writeText (outputPath.join "transcript.txt") (transcriptText ++ "\n")
      writeJson lib (outputPath.join "transcript.json") (.obj [("text", .str transcriptText),
        ("segments", segments), ("model", .str whisperModel)])
      let subtitle ← Eff.liftExcept (segmentsToSrt lib segments)
      writeText (outputPath.join "subtitle.srt") subtitle
      let qualityReport ← buildQualityReport outputPath
      writeHumanReport lib outputPath jobId source.name transcriptText whisperModel qualityReport
      if qualityReport.status ≠ "passed" then
        .throw (realMediaSmokeError
          ("quality report failed: " ++ checksText qualityReport.checks))
      else return {
        status := "completed"
        steps := ["ffprobe", "ffmpeg_extract_audio", "mlx_whisper"]
        outputDir := outputPath
        workDir := workPath
        transcriptText := transcriptText
        qualityReport := qualityReport }

/-! ## `run_claimed_pipeline_step` -/

/-- `WorkerRuntimeConfig`, as far as the runner reads it. -/
structure WorkerRuntimeConfig where
  nodeId : String
  executionMode : String := "deterministic"
  pythonExecutable : String := "python3"
  whisperModel : String := "mlx-community/whisper-tiny"
  toolTimeoutSeconds : ℤ := 120

/-- `str(v)`, of a missing value `str(None)`. -/
def Library.text (lib : Library) : Option Json → String
  | some (.str s) => s
  | some v => lib.str v
  | none => lib.str .null

/-- `_required_json_str` -/
def requiredJsonStr (payload : Dict) (key : String) : Except Exn String :=
  match payload.get? key with
  | some (.str value) =>
    if value = "" then .error (runtimeError ("claimed step input_json is missing " ++ key))
    else .ok value
  | _ => .error (runtimeError ("claimed step input_json is missing " ++ key))

/-- The strings of a list of strings. -/
def stringList : Option Json → Option (List String)
  | some (.arr items) => items.mapM fun
    | .str s => some s
    | _ => none
  | _ => none

/-- What both pipelines are called with. -/
structure PipelineArgs where
  inputFile : String
  outputDir : String
  workDir : String
  requestedOutputs : List String
  language : Option String
  jobId : String

/-- `value == "video_to_subtitle_pipeline"` -/
def isPipelineTool : Option Json → Bool
  | some (.str s) => s = "video_to_subtitle_pipeline"
  | _ => false

/-- `value if isinstance(value, str) else None` -/
def strOrNone : Option Json → Option String
  | some (.str s) => some s
  | _ => none

/-- The checks of `run_claimed_pipeline_step` and the arguments it collects. -/
def pipelineArgs (lib : Library) (step : Dict) : Except Exn PipelineArgs := do
  let toolName := Dict.get? step "tool_name"
  if !isPipelineTool toolName then
    .error (runtimeError ("unsupported claimed step tool: " ++ lib.text toolName))
  else
    match Dict.get? step "input_json" with
    | some (.obj inputJson) =>
      match stringList (Dict.get? inputJson "requested_outputs") with
      | some requestedOutputs =>
        let inputFile ← requiredJsonStr inputJson "input_file"
        let outputDir ← requiredJsonStr inputJson "output_dir"
        let workDir ← requiredJsonStr inputJson "work_dir"
        let jobId ← (requiredStepStr step "job_id").mapError runtimeError
        return {
          inputFile := inputFile
          outputDir := outputDir
          workDir := workDir
          requestedOutputs := requestedOutputs
          language := strOrNone (Dict.get? inputJson "language")
          jobId := jobId }
      | none => .error (runtimeError "claimed step requested_outputs must be list[str]")
    | _ => .error (runtimeError "claimed step is missing input_json")

/-- The output of a step whose pipeline did not complete. -/
def failedOutput (errorMessage : Option String) (outputDir workDir : PurePath) : Dict :=
  [("status", .str "failed"),
    ("error_message", .str (match errorMessage with
      | some text => if text = "" then "pipeline failed" else text
      | none => "pipeline failed")),
    ("output_dir", .str outputDir.str), ("work_dir", .str workDir.str)]

/-- The output of a step whose pipeline completed. -/
def completedOutput (status : String) (steps : List String) (outputDir workDir : PurePath)
    (nodeId : String) (qualityReport : Json) : Dict :=
  [("status", .str status), ("pipeline_steps", .arr (steps.map .str)),
    ("output_dir", .str outputDir.str), ("work_dir", .str workDir.str), ("node_id", .str nodeId),
    ("quality_report", qualityReport)]

/-- `run_claimed_pipeline_step` -/
def runClaimedPipelineStep (lib : Library) (h : Host) (config : WorkerRuntimeConfig)
    (step : Dict) : FileProg Dict := do
  let args ← Eff.liftExcept (pipelineArgs lib step)
  if config.executionMode = "real" then
    let result ← runRealVideoToSubtitlePipeline lib h args.inputFile args.outputDir args.workDir
      args.requestedOutputs args.language args.jobId config.pythonExecutable config.whisperModel
      config.toolTimeoutSeconds
    if result.status ≠ "completed" then
      return failedOutput result.errorMessage result.outputDir result.workDir
    else
      return completedOutput result.status result.steps result.outputDir result.workDir
        config.nodeId result.qualityReport.toJson
  else if config.executionMode ≠ "deterministic" then
    .throw (runtimeError ("unsupported execution mode: " ++ config.executionMode))
  else
    let result ← runMockVideoToSubtitlePipeline lib args.inputFile args.outputDir args.workDir
      args.requestedOutputs args.language args.jobId
    if result.status ≠ "completed" then
      return failedOutput result.errorMessage result.outputDir result.workDir
    else
      return completedOutput result.status result.steps result.outputDir result.workDir
        config.nodeId .null

end MediaOrchard
