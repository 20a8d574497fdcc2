/-
  The files that the pipelines write.

  * `Place`: a file of a job, in its output or its work directory; `Place.parts_inj`:
    different places of different jobs are different paths;
  * `Targets root J S`: an operation writes only files of `S`, `Marks root J pl`: it
    writes `pl`;
  * `runClaimedPipelineStep_uses`: the runner writes only the files of its mode;
  * `runClaimedPipelineStep_until`: before the first file that its mode has in common
    with another (`firstShared`), it writes only files that the other does not.
-/
import MediaOrchard.Worker.Attempts
import MediaOrchard.Proof.Storage

namespace MediaOrchard

open Posix Effects Eff

/-! ## Places -/

/-- A file of a job: the directory, `output` or `work`, and the name below the
    directory of the job. -/
structure Place where
  dir : String
  name : List String
  deriving DecidableEq

/-- The path of the file, for the job `J`. -/
def Place.parts (root : ResolvedPath) (J : String) (pl : Place) : ResolvedPath :=
  root ++ ([pl.dir, J] ++ pl.name)

theorem Place.parts_inj {root : ResolvedPath} {J J' : String} {pl pl' : Place}
    (h : pl.parts root J = pl'.parts root J') : pl = pl' ∧ J = J' := by
  have hrest := List.append_cancel_left h
  simp only [List.cons_append, List.nil_append, List.cons.injEq] at hrest
  obtain ⟨hdir, hJ, hname⟩ := hrest
  cases pl
  cases pl'
  cases hdir
  cases hname
  exact ⟨rfl, hJ⟩

theorem Place.mem_parts (root : ResolvedPath) (J : String) (pl : Place) : J ∈ pl.parts root J := by
  simp [Place.parts]

/-- The path leads to the place. -/
def Leads (root : ResolvedPath) (J : String) (pl : Place) (p : PurePath) : Prop :=
  p.absolute = true ∧ p.parts = pl.parts root J

variable {root : ResolvedPath} {J : String} {pl : Place} {p : PurePath}

theorem Leads.join (hp : Leads root J pl p) {c : String} (hc : Clean c) :
    Leads root J ⟨pl.dir, pl.name ++ [c]⟩ (p.join c) := by
  obtain ⟨habs, hparts⟩ := p.join_segment hc.toSegment
  refine ⟨habs.trans hp.1, ?_⟩
  rw [hparts, hp.2, Place.parts, Place.parts]
  simp

/-- The two texts name the directories of the job. -/
structure Dirs (root : ResolvedPath) (J outputDir workDir : String) : Prop where
  output : Leads root J ⟨"output", []⟩ (PurePath.ofString outputDir)
  work : Leads root J ⟨"work", []⟩ (PurePath.ofString workDir)

/-! ## Footprints -/

/-- The operation writes only files of `S`. -/
def Targets (root : ResolvedPath) (J : String) (S : List Place) (o : FileOp) : Prop :=
  ∀ p, o.target = some p → ∃ pl ∈ S, Leads root J pl p

/-- The operation writes the file `pl`. -/
def Marks (root : ResolvedPath) (J : String) (pl : Place) (o : FileOp) : Prop :=
  ∃ p, o.target = some p ∧ Leads root J pl p

variable {S : List Place} {lib : Library}

theorem raise_uses {φ : FileOp → Prop} {α : Type} (r : Except SysError α) :
    Uses φ (FileProg.raise r) := by
  cases r <;> trivial

/-- An operation that writes nothing. -/
theorem silent_uses {α : Type} {o : FileOp} (ho : o.target = none) {k : o.Ans → FileProg α}
    (hk : ∀ r, Uses (Targets root J S) (k r)) : Uses (Targets root J S) (.op o k) := by
  refine ⟨fun p hp => ?_, hk⟩
  rw [ho] at hp
  cases hp

theorem mkdirs_uses (p : PurePath) : Uses (Targets root J S) (FileProg.mkdirs p) :=
  silent_uses rfl raise_uses

theorem isFile_uses (p : PurePath) : Uses (Targets root J S) (FileProg.isFile p) :=
  silent_uses rfl raise_uses

theorem writeText_uses {content : String} (hp : Leads root J pl p) (hpl : pl ∈ S) :
    Uses (Targets root J S) (writeText p content) := by
  refine Uses.bind (mkdirs_uses _) fun _ => ⟨fun q hq => ?_, raise_uses⟩
  cases hq
  exact ⟨pl, hpl, hp⟩

theorem onlyIf_uses {c : Prop} [Decidable c] {q : FileProg Unit}
    (hq : Uses (Targets root J S) q) : Uses (Targets root J S) (FileProg.onlyIf c q) := by
  unfold FileProg.onlyIf
  split_ifs
  exacts [hq, trivial]

/-- The operation only looks at the disk. -/
def FileOp.Reads : FileOp → Prop
  | .mkdirs _ | .write _ _ | .command _ _ _ => False
  | _ => True

theorem nonEmpty_reads (p : PurePath) : Uses FileOp.Reads (nonEmpty p) := by
  refine Uses.bind ⟨trivial, raise_uses⟩ fun b => ?_
  split_ifs
  · exact Uses.bind ⟨trivial, raise_uses⟩ fun _ => trivial
  · trivial

theorem anyNonEmpty_reads (p : PurePath) (names : List String) :
    Uses FileOp.Reads (anyNonEmpty p names) := by
  induction names with
  | nil => trivial
  | cons name names ih =>
    refine Uses.bind (nonEmpty_reads _) fun b => ?_
    split_ifs
    exacts [trivial, ih]

/-- The quality report only looks at the files. -/
theorem buildQualityReport_reads (p : PurePath) : Uses FileOp.Reads (buildQualityReport p) := by
  unfold buildQualityReport
  dsimp only
  refine Uses.bind (nonEmpty_reads _) fun _ => Uses.bind (nonEmpty_reads _) fun _ => ?_
  refine Uses.bind (nonEmpty_reads _) fun _ => Uses.bind (nonEmpty_reads _) fun _ => ?_
  refine Uses.bind (nonEmpty_reads _) fun _ => Uses.bind ⟨trivial, raise_uses⟩ fun b => ?_
  split_ifs
  · refine Uses.bind (Uses.bind ⟨trivial, raise_uses⟩ fun names => ?_) fun _ => ?_
    · exact anyNonEmpty_reads _ names
    · trivial
  · trivial

theorem buildQualityReport_uses (p : PurePath) :
    Uses (Targets root J S) (buildQualityReport p) := by
  refine (buildQualityReport_reads p).imp fun o ho q hq => ?_
  cases o <;> first | exact absurd ho id | cases hq

/-! ## The mock pipeline -/

/-- The files of a mock run. -/
def mockFiles : List Place :=
  videoToSubtitleSteps.map (fun step => ⟨"output", ["logs", step ++ ".log"]⟩) ++
  ["input_meta.json", "audio.wav", "transcript.txt", "transcript.json", "subtitle.srt",
    "quality_report.json", "report.md"].map (fun name => ⟨"output", [name]⟩) ++
  [⟨"work", ["probe_media", "input_meta.json"]⟩, ⟨"work", ["extract_audio", "attempt_1", "audio.wav"]⟩,
    ⟨"work", ["transcribe_audio", "attempt_1", "transcript.txt"]⟩,
    ⟨"work", ["transcribe_audio", "attempt_1", "transcript.json"]⟩,
    ⟨"work", ["transcribe_audio", "attempt_1", "subtitle.srt"]⟩]

variable {inputFile outputDir workDir : String} {requestedOutputs : List String}
  {language : Option String} {jobId : String}

theorem runMockVideoToSubtitlePipeline_uses (hd : Dirs root J outputDir workDir) :
    Uses (Targets root J mockFiles) (runMockVideoToSubtitlePipeline lib inputFile outputDir workDir
      requestedOutputs language jobId) := by
  have hlogs := hd.output.join (c := "logs") (by decide)
  have hprobe := hd.work.join (c := "probe_media") (by decide)
  have hextract := (hd.work.join (c := "extract_audio") (by decide)).join (c := "attempt_1") (by decide)
  have htranscribe :=
    (hd.work.join (c := "transcribe_audio") (by decide)).join (c := "attempt_1") (by decide)
  unfold runMockVideoToSubtitlePipeline
  dsimp only
  split_ifs
  · trivial
  refine Uses.bind (mkdirs_uses _) fun _ => Uses.bind (mkdirs_uses _) fun _ => ?_
  refine Uses.bind (mkdirs_uses _) fun _ => ?_
  -- probe_media
  refine Uses.bind (writeText_uses (hlogs.join (by decide)) (by decide)) fun _ => ?_
  refine Uses.bind (writeText_uses (hprobe.join (by decide)) (by decide)) fun _ => ?_
  refine Uses.bind (writeText_uses (hd.output.join (by decide)) (by decide)) fun _ => ?_
  -- extract_audio
  refine Uses.bind (writeText_uses (hlogs.join (by decide)) (by decide)) fun _ => ?_
  refine Uses.bind (writeText_uses (hextract.join (by decide)) (by decide)) fun _ => ?_
  refine Uses.bind (writeText_uses (hd.output.join (by decide)) (by decide)) fun _ => ?_
  -- transcribe_audio
  refine Uses.bind (writeText_uses (hlogs.join (by decide)) (by decide)) fun _ => ?_
  refine Uses.bind (writeText_uses (htranscribe.join (by decide)) (by decide)) fun _ => ?_
  refine Uses.bind (writeText_uses (htranscribe.join (by decide)) (by decide)) fun _ => ?_
  refine Uses.bind (writeText_uses (htranscribe.join (by decide)) (by decide)) fun _ => ?_
  -- collect_outputs
  refine Uses.bind (writeText_uses (hlogs.join (by decide)) (by decide)) fun _ => ?_
  refine Uses.bind (onlyIf_uses (writeText_uses (hd.output.join (by decide)) (by decide))) fun _ => ?_
  refine Uses.bind (onlyIf_uses (writeText_uses (hd.output.join (by decide)) (by decide))) fun _ => ?_
  refine Uses.bind (onlyIf_uses (writeText_uses (hd.output.join (by decide)) (by decide))) fun _ => ?_
  -- quality_check
  refine Uses.bind (writeText_uses (hlogs.join (by decide)) (by decide)) fun _ => ?_
  refine Uses.bind (isFile_uses _) fun _ => Uses.bind (isFile_uses _) fun _ => ?_
  refine Uses.bind (isFile_uses _) fun _ => ?_
  refine Uses.bind (writeText_uses (hd.output.join (by decide)) (by decide)) fun _ => ?_
  -- write_report
  refine Uses.bind (writeText_uses (hlogs.join (by decide)) (by decide)) fun _ => ?_
  exact Uses.bind (writeText_uses (hd.output.join (by decide)) (by decide)) fun _ => trivial

/-! ## The real pipeline -/

/-- The files of a real run. -/
def realFiles : List Place :=
  ["ffprobe", "ffmpeg_extract_audio", "mlx_whisper"].flatMap (fun name =>
    [⟨"output", ["logs", name ++ ".stdout.log"]⟩, ⟨"output", ["logs", name ++ ".stderr.log"]⟩]) ++
  ["input_meta.json", "audio.wav", "transcript.txt", "transcript.json", "subtitle.srt",
    "quality_report.json", "report.md"].map (fun name => ⟨"output", [name]⟩) ++
  [⟨"work", ["whisper_result.json"]⟩]

/-- A command writes its output and its logs. -/
theorem runCommand_uses {name : String} {argv : List String} {output : Option PurePath}
    {logsDir : PurePath} {timeoutSeconds : ℤ} (hlogs : Leads root J ⟨"output", ["logs"]⟩ logsDir)
    (hn : Clean (name ++ ".stdout.log") ∧ Clean (name ++ ".stderr.log"))
    (hS : ⟨"output", ["logs", name ++ ".stdout.log"]⟩ ∈ S ∧
      ⟨"output", ["logs", name ++ ".stderr.log"]⟩ ∈ S)
    (hout : ∀ p, output = some p → ∃ pl ∈ S, Leads root J pl p) :
    Uses (Targets root J S) (runCommand name argv output logsDir timeoutSeconds) := by
  have hstdout : ∀ content, Uses (Targets root J S)
      (writeText (logsDir.join (name ++ ".stdout.log")) content) := fun content =>
    writeText_uses (hlogs.join hn.1) hS.1
  have hstderr : ∀ content, Uses (Targets root J S)
      (writeText (logsDir.join (name ++ ".stderr.log")) content) := fun content =>
    writeText_uses (hlogs.join hn.2) hS.2
  refine Uses.bind ⟨hout, raise_uses⟩ fun completed => ?_
  cases completed with
  | timedOut timeout out err =>
    exact Uses.bind (hstdout _) fun _ => Uses.bind (hstderr _) fun _ => trivial
  | exited returncode stdout stderr =>
    refine Uses.bind (hstdout _) fun _ => Uses.bind (hstderr _) fun _ => ?_
    split_ifs <;> trivial

variable {h : Host} {pythonExecutable whisperModel : String} {timeoutSeconds : ℤ}

theorem runRealVideoToSubtitlePipeline_uses (hd : Dirs root J outputDir workDir) :
    Uses (Targets root J realFiles) (runRealVideoToSubtitlePipeline lib h inputFile outputDir workDir
      requestedOutputs language jobId pythonExecutable whisperModel timeoutSeconds) := by
  have hlogs := hd.output.join (c := "logs") (by decide)
  have haudio := hd.output.join (c := "audio.wav") (by decide)
  have hraw := hd.work.join (c := "whisper_result.json") (by decide)
  unfold runRealVideoToSubtitlePipeline
  dsimp only
  split_ifs
  · trivial
  refine Uses.bind (silent_uses rfl raise_uses) fun _ => ?_
  split_ifs
  · trivial
  refine Uses.bind (mkdirs_uses _) fun _ => Uses.bind (mkdirs_uses _) fun _ => ?_
  refine Uses.bind (mkdirs_uses _) fun _ => ?_
  -- ffprobe
  refine Uses.bind (runCommand_uses hlogs (by decide) (by decide) (by simp)) fun _ => ?_
  refine Uses.bind (writeText_uses (hd.output.join (by decide)) (by decide)) fun _ => ?_
  -- ffmpeg_extract_audio
  refine Uses.bind (runCommand_uses hlogs (by decide) (by decide) fun p hp => ?_) fun _ => ?_
  · cases hp
    exact ⟨_, by decide, haudio⟩
  -- mlx_whisper
  refine Uses.bind (runCommand_uses hlogs (by decide) (by decide) fun p hp => ?_) fun _ => ?_
  · cases hp
    exact ⟨_, by decide, hraw⟩
  refine Uses.bind (silent_uses rfl raise_uses) fun _ => Uses.bind (Uses.liftExcept _) fun _ => ?_
  refine Uses.bind (Uses.liftExcept _) fun _ => Uses.bind (Uses.liftExcept _) fun _ => ?_
  refine Uses.bind (writeText_uses (hd.output.join (by decide)) (by decide)) fun _ => ?_
  refine Uses.bind (writeText_uses (hd.output.join (by decide)) (by decide)) fun _ => ?_
  refine Uses.bind (Uses.liftExcept _) fun _ => ?_
  refine Uses.bind (writeText_uses (hd.output.join (by decide)) (by decide)) fun _ => ?_
  -- the quality report
  refine Uses.bind (buildQualityReport_uses _) fun report => Uses.bind ?_ fun _ => ?_
  · refine Uses.bind (writeText_uses (hd.output.join (by decide)) (by decide)) fun _ => ?_
    exact writeText_uses (hd.output.join (by decide)) (by decide)
  · split_ifs <;> trivial

/-! ## The first shared file -/

/-- The files of a run. -/
def WorkerRuntimeConfig.files (config : WorkerRuntimeConfig) : List Place :=
  if config.executionMode = "real" then realFiles else mockFiles

theorem WorkerRuntimeConfig.files_subset (config : WorkerRuntimeConfig) :
    config.files ⊆ realFiles ++ mockFiles := by
  unfold WorkerRuntimeConfig.files
  split_ifs
  exacts [List.subset_append_left _ _, List.subset_append_right _ _]

/-- The first file of a run in one mode, real or not, that a run in the other mode
    writes as well. -/
def firstShared : Bool → Bool → Place
  | true, true => ⟨"output", ["logs", "ffprobe.stdout.log"]⟩
  | false, false => ⟨"output", ["logs", "probe_media.log"]⟩
  | _, _ => ⟨"output", ["input_meta.json"]⟩

/-- The files that a run in the first mode writes before `firstShared`. -/
def earlyFiles : Bool → Bool → List Place
  | true, false =>
    [⟨"output", ["logs", "ffprobe.stdout.log"]⟩, ⟨"output", ["logs", "ffprobe.stderr.log"]⟩]
  | false, true =>
    [⟨"output", ["logs", "probe_media.log"]⟩, ⟨"work", ["probe_media", "input_meta.json"]⟩]
  | _, _ => []

theorem firstShared_comm (real real' : Bool) : firstShared real real' = firstShared real' real := by
  cases real <;> cases real' <;> rfl

theorem firstShared_mem (config : WorkerRuntimeConfig) (real : Bool) :
    firstShared (config.executionMode = "real") real ∈ config.files := by
  unfold WorkerRuntimeConfig.files
  by_cases h : config.executionMode = "real" <;> cases real <;> simp only [h, if_true, if_false] <;>
    decide

theorem earlyFiles_mem (config : WorkerRuntimeConfig) (real : Bool) :
    ∀ pl ∈ earlyFiles (config.executionMode = "real") real, pl ∈ config.files := by
  unfold WorkerRuntimeConfig.files
  by_cases h : config.executionMode = "real" <;> cases real <;> simp only [h, if_true, if_false] <;>
    decide

/-- The other mode does not write them. -/
theorem earlyFiles_own : ∀ real real', ∀ pl ∈ earlyFiles real real',
    pl ∉ if real' then realFiles else mockFiles := by
  decide

variable {E : List Place}

/-- Writing the marked file. -/
theorem writeText_until {α : Type} {content : String} {g : Unit → FileProg α}
    (hp : Leads root J pl p) :
    Until (Targets root J E) (Marks root J pl) ((writeText p content).bind g) := by
  refine Or.inr ⟨fun q hq => (by cases hq), fun r => ?_⟩
  cases r with
  | error => trivial
  | ok => exact Or.inl ⟨p, rfl, hp⟩

theorem runMockVideoToSubtitlePipeline_until (hd : Dirs root J outputDir workDir) (real : Bool) :
    Until (Targets root J (earlyFiles false real)) (Marks root J (firstShared false real))
      (runMockVideoToSubtitlePipeline lib inputFile outputDir workDir requestedOutputs language
        jobId) := by
  have hlogs := hd.output.join (c := "logs") (by decide)
  have hprobe := hd.work.join (c := "probe_media") (by decide)
  unfold runMockVideoToSubtitlePipeline
  dsimp only
  split_ifs
  · trivial
  refine (mkdirs_uses _).until.bind fun _ => (mkdirs_uses _).until.bind fun _ => ?_
  refine (mkdirs_uses _).until.bind fun _ => ?_
  cases real with
  | false => exact writeText_until (hlogs.join (by decide))
  | true =>
    refine (writeText_uses (hlogs.join (by decide)) (by decide)).until.bind fun _ => ?_
    refine (writeText_uses (hprobe.join (by decide)) (by decide)).until.bind fun _ => ?_
    exact writeText_until (hd.output.join (by decide))

theorem runRealVideoToSubtitlePipeline_until (hd : Dirs root J outputDir workDir) (real : Bool) :
    Until (Targets root J (earlyFiles true real)) (Marks root J (firstShared true real))
      (runRealVideoToSubtitlePipeline lib h inputFile outputDir workDir requestedOutputs language
        jobId pythonExecutable whisperModel timeoutSeconds) := by
  have hlogs := hd.output.join (c := "logs") (by decide)
  unfold runRealVideoToSubtitlePipeline
  dsimp only
  split_ifs
  · trivial
  refine (silent_uses rfl raise_uses).until.bind fun _ => ?_
  split_ifs
  · trivial
  refine (mkdirs_uses _).until.bind fun _ => (mkdirs_uses _).until.bind fun _ => ?_
  refine (mkdirs_uses _).until.bind fun _ => ?_
  cases real with
  | false =>
    refine (runCommand_uses hlogs (by decide) (by decide) (by simp)).until.bind fun _ => ?_
    exact writeText_until (hd.output.join (by decide))
  | true =>
    -- the first log of the command, whether it has ended or not
    show Until _ _ (((FileProg.command _ none timeoutSeconds).bind _).bind _)
    rw [Eff.bind_assoc]
    refine Until.bind (Uses.until ⟨fun q hq => (by cases hq), raise_uses⟩) fun completed => ?_
    cases completed with
    | timedOut | exited =>
      dsimp only [Eff.bind_eq]
      rw [Eff.bind_assoc]
      exact writeText_until (hlogs.join (by decide))

/-! ## The runner -/

/-- The claimed step works for the job `J`: it was planned with the directories of `J`
    below `root`. -/
structure WorksFor (root : ResolvedPath) (J : String) (step : Dict) : Prop where
  clean : Clean J
  jobId : Dict.get? step "job_id" = some (.str J)
  dirs : ∃ inputJson, Dict.get? step "input_json" = some (.obj inputJson) ∧
    Dict.get? inputJson "output_dir" =
      some (.str (root ++ ["output", J] : ResolvedPath).str) ∧
    Dict.get? inputJson "work_dir" = some (.str (root ++ ["work", J] : ResolvedPath).str)

theorem requiredJsonStr_ok {payload : Dict} {key s t : String}
    (h : requiredJsonStr payload key = .ok s) (hk : Dict.get? payload key = some (.str t)) :
    s = t := by
  unfold requiredJsonStr at h
  rw [hk] at h
  dsimp only at h
  split_ifs at h
  exact (Except.ok.inj h).symm

/-- The text of a directory below the shared root. -/
theorem leads_dir (hroot : ∀ c ∈ root, Clean c) (hJ : Clean J) {d : String} (hd : Clean d) :
    Leads root J ⟨d, []⟩ (PurePath.ofString (root ++ [d, J] : ResolvedPath).str) := by
  have hseg : ∀ c ∈ root ++ [d, J], Segment c := by
    intro c hc
    simp only [List.mem_append, List.mem_cons, List.not_mem_nil, or_false] at hc
    rcases hc with hc | rfl | rfl
    exacts [(hroot c hc).toSegment, hd.toSegment, hJ.toSegment]
  obtain ⟨habs, hparts⟩ := PurePath.ofString_render hseg
  rw [ResolvedPath.str_eq]
  refine ⟨habs, hparts.trans ?_⟩
  rw [Place.parts, List.append_nil]

variable {step : Dict} {args : PipelineArgs}

/-- The arguments are what the Controller planned. -/
theorem pipelineArgs_dirs (hroot : ∀ c ∈ root, Clean c) (hw : WorksFor root J step)
    (h : pipelineArgs lib step = .ok args) : Dirs root J args.outputDir args.workDir := by
  obtain ⟨kvs, hkvs, hout, hwork⟩ := hw.dirs
  unfold pipelineArgs at h
  dsimp only at h
  split_ifs at h
  rw [hkvs] at h
  dsimp only at h
  split at h
  · obtain ⟨inputFile, -, h⟩ := bind_ok h
    obtain ⟨outputDir, ho, h⟩ := bind_ok h
    obtain ⟨workDir, hw', h⟩ := bind_ok h
    obtain ⟨jobId, -, h⟩ := bind_ok h
    obtain rfl := requiredJsonStr_ok ho hout
    obtain rfl := requiredJsonStr_ok hw' hwork
    cases h
    exact ⟨leads_dir hroot hw.clean (by decide), leads_dir hroot hw.clean (by decide)⟩
  · cases h

variable {config : WorkerRuntimeConfig}

/-- What holds of both pipelines, called with the directories of the job, holds of the
    runner. -/
theorem runClaimedPipelineStep_cases (hroot : ∀ c ∈ root, Clean c) (hw : WorksFor root J step)
    {T : {α : Type} → FileProg α → Prop}
    (hbind : ∀ {α β : Type} (p : FileProg α) (g : α → FileProg β), T p → (∀ a, T (g a)) →
      T (p.bind g))
    (hret : ∀ {α : Type} (a : α), T (.ret a : FileProg α))
    (hthrow : ∀ {α : Type} (e : Exn), T (.throw e : FileProg α))
    (hreal : config.executionMode = "real" → ∀ args : PipelineArgs,
      Dirs root J args.outputDir args.workDir → T (runRealVideoToSubtitlePipeline lib h
        args.inputFile args.outputDir args.workDir args.requestedOutputs args.language args.jobId
        config.pythonExecutable config.whisperModel config.toolTimeoutSeconds))
    (hmock : config.executionMode ≠ "real" → ∀ args : PipelineArgs,
      Dirs root J args.outputDir args.workDir → T (runMockVideoToSubtitlePipeline lib
        args.inputFile args.outputDir args.workDir args.requestedOutputs args.language
        args.jobId)) : T (runClaimedPipelineStep lib h config step) := by
  unfold runClaimedPipelineStep
  cases hargs : pipelineArgs lib step with
  | error e => exact hthrow e
  | ok args =>
    have hd := pipelineArgs_dirs hroot hw hargs
    show T (if config.executionMode = "real" then _ else _)
    split_ifs with hmode hdet
    · refine hbind _ _ (hreal hmode args hd) fun result => ?_
      split_ifs <;> exact hret _
    · exact hthrow _
    · refine hbind _ _ (hmock hmode args hd) fun result => ?_
      split_ifs <;> exact hret _

/-- **The files of the runner.** -/
theorem runClaimedPipelineStep_uses (hroot : ∀ c ∈ root, Clean c) (hw : WorksFor root J step) :
    Uses (Targets root J config.files) (runClaimedPipelineStep lib h config step) := by
  refine runClaimedPipelineStep_cases hroot hw (T := fun p => Uses (Targets root J config.files) p)
    (fun p g => Uses.bind) (fun _ => trivial) (fun _ => trivial) (fun hmode args hd => ?_)
    fun hmode args hd => ?_
  · rw [WorkerRuntimeConfig.files, if_pos hmode]
    exact runRealVideoToSubtitlePipeline_uses hd
  · rw [WorkerRuntimeConfig.files, if_neg hmode]
    exact runMockVideoToSubtitlePipeline_uses hd

/-- **The first file that the runner shares** with a run in another mode. -/
theorem runClaimedPipelineStep_until (hroot : ∀ c ∈ root, Clean c) (hw : WorksFor root J step)
    (real : Bool) : Until (Targets root J (earlyFiles (config.executionMode = "real") real))
      (Marks root J (firstShared (config.executionMode = "real") real))
      (runClaimedPipelineStep lib h config step) := by
  refine runClaimedPipelineStep_cases hroot hw (T := fun p =>
    Until (Targets root J (earlyFiles (config.executionMode = "real") real))
      (Marks root J (firstShared (config.executionMode = "real") real)) p)
    (fun p g => Until.bind) (fun _ => trivial) (fun _ => trivial) (fun hmode args hd => ?_)
    fun hmode args hd => ?_
  · rw [decide_eq_true hmode]
    exact runRealVideoToSubtitlePipeline_until hd real
  · rw [decide_eq_false hmode]
    exact runMockVideoToSubtitlePipeline_until hd real

end MediaOrchard
