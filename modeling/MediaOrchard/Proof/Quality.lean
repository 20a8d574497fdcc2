/-
  The quality gate of the real pipeline.

  * `Transcribed`: what a run that returns has read and written;
    `runReal_transcribed`: every such run has;
  * `HasText`: the result of whisper has a text, and a segment with a text;
  * `quality_gate`: a step that the real pipeline completes has a transcript and a
    subtitle that are not blank if and only if whisper's result had such texts.
-/
import MediaOrchard.Proof.Pipelines
import MediaOrchard.Proof.Sandbox
import MediaOrchard.Proof.Subtitles

namespace MediaOrchard

open Posix Effects Eff Interleave

/-! ## Files written -/

/-- The run has written the text to the path. -/
def Written (cs : List FileCall) (p : PurePath) (data : String) : Prop :=
  ∃ d d', (⟨.write p data, .ok (), d, d'⟩ : FileCall) ∈ cs

/-- The operation leaves the file `q` alone. -/
def Spares (h : Host) (q : ResolvedPath) : FileOp → Prop
  | .write p _ => h.real p ≠ q
  | .command _ _ _ => False
  | _ => True

variable {h : Host} {cmd : CommandSem} {d d' : Disk} {cs : List FileCall} {p : PurePath}
  {q : ResolvedPath} {lib : Library}

theorem Written.mono {data : String} {cs' : List FileCall} (hw : Written cs p data)
    (hsub : ∀ c ∈ cs, c ∈ cs') : Written cs' p data := by
  obtain ⟨e, e', hmem⟩ := hw
  exact ⟨e, e', hsub _ hmem⟩

/-- A file that the operation spares stays as it is. -/
theorem Spares.keeps {o : FileOp} {r : o.Ans} {t : String} (ho : Spares h q o)
    (hs : o.Step h cmd d r d') (ht : d.entry q = some (.file t)) : d'.entry q = some (.file t) := by
  cases o with
  | mkdirs p =>
    rcases MkdirsStep.created hs q with he | ⟨hnone, -⟩
    · rw [he, ht]
    · rw [hnone] at ht
      cases ht
  | write p data =>
    have hother : d'.entry q = d.entry q := WriteStep.other hs q (Ne.symm ho)
    rw [hother, ht]
  | command => exact absurd ho id
  | _ =>
    obtain ⟨rfl, -⟩ := hs
    exact ht

theorem writeText_spares {content : String} (hp : h.real p ≠ q) :
    Uses (Spares h q) (writeText p content) :=
  Uses.bind ⟨trivial, raise_uses⟩ fun _ => ⟨hp, raise_uses⟩

theorem buildQualityReport_spares (p : PurePath) : Uses (Spares h q) (buildQualityReport p) := by
  refine (buildQualityReport_reads p).imp fun o ho => ?_
  cases o <;> first | exact absurd ho id | trivial

/-- A text that was written is on the disk. -/
theorem writeText_ends {content : String}
    (hr : Ends (FileOp.Step h cmd) (writeText p content) d cs (.ok ()) d') :
    Written cs p content ∧ d'.entry (h.real p) = some (.file content) := by
  obtain ⟨-, u, cs₁, cs₂, rfl, -, hr⟩ := Ends.bind_ok hr
  obtain ⟨r, v, cs', rfl, hs, hr⟩ := hr
  cases r with
  | error => cases hr.2.1
  | ok =>
    obtain ⟨rfl, -, rfl⟩ := hr
    exact ⟨⟨u, d', by simp⟩, WriteStep.done hs rfl⟩

theorem readText_ends {t : String}
    (hr : Ends (FileOp.Step h cmd) (FileProg.readText p) d cs (.ok t) d') :
    cs = [⟨.readText p, .ok t, d, d'⟩] := by
  obtain ⟨r, v, cs', rfl, hs, hr⟩ := hr
  cases r with
  | error => cases hr.2.1
  | ok =>
    obtain ⟨rfl, ho, rfl⟩ := hr
    cases ho
    rfl

/-! ## Runs that return -/

/-- What a run of the real pipeline that returns has read and written. -/
structure Transcribed (lib : Library) (h : Host) (outputDir workDir : PurePath)
    (cs : List FileCall) (d' : Disk) (payload : Json) (transcript subtitle : String) : Prop where
  loaded : ∃ raw e e', (⟨.readText (workDir.join "whisper_result.json"), .ok raw, e, e'⟩ : FileCall)
    ∈ cs ∧ lib.loads raw = .ok payload
  texts : ∃ text segments, textOf payload = .ok text ∧ segmentsOf payload text = .ok segments ∧
    transcript = text ++ "\n" ∧ segmentsToSrt lib segments = .ok subtitle
  transcriptTxt : Written cs (outputDir.join "transcript.txt") transcript
  transcriptJson : ∃ data, Written cs (outputDir.join "transcript.json") data
  subtitleSrt : Written cs (outputDir.join "subtitle.srt") subtitle
  /-- the files are there at the end, unless a later name leads to the same file -/
  transcriptFile : (∀ name ∈ ["transcript.json", "subtitle.srt", "quality_report.json", "report.md"],
      h.real (outputDir.join name) ≠ h.real (outputDir.join "transcript.txt")) →
    d'.entry (h.real (outputDir.join "transcript.txt")) = some (.file transcript)
  subtitleFile : (∀ name ∈ ["quality_report.json", "report.md"],
      h.real (outputDir.join name) ≠ h.real (outputDir.join "subtitle.srt")) →
    d'.entry (h.real (outputDir.join "subtitle.srt")) = some (.file subtitle)

theorem unsupportedOutputs_nil {requestedOutputs : List String}
    (hu : unsupportedOutputs requestedOutputs = []) :
    ∀ o ∈ requestedOutputs, o ∈ ["srt", "txt", "json"] := by
  intro o ho
  by_contra hnot
  have hmem : o ∈ unsupportedOutputs requestedOutputs := by
    unfold unsupportedOutputs
    rw [List.mem_mergeSort, List.mem_eraseDups, List.mem_filter]
    exact ⟨ho, decide_eq_true hnot⟩
  rw [hu] at hmem
  cases hmem

variable {inputFile outputDir workDir : String} {requestedOutputs : List String}
  {language : Option String} {jobId pythonExecutable whisperModel : String} {timeoutSeconds : ℤ}
  {result : RealMediaPipelineResult}

/-- **Every run of the real pipeline that returns** has transcribed. -/
theorem runReal_transcribed (hr : Ends (FileOp.Step h cmd) (runRealVideoToSubtitlePipeline lib h
      inputFile outputDir workDir requestedOutputs language jobId pythonExecutable whisperModel
      timeoutSeconds) d cs (.ok result) d') :
    result.status = "completed" ∧ (∀ o ∈ requestedOutputs, o ∈ ["srt", "txt", "json"]) ∧
      ∃ payload transcript subtitle, Transcribed lib h (.ofString outputDir) (.ofString workDir) cs d'
        payload transcript subtitle := by
  unfold runRealVideoToSubtitlePipeline at hr
  dsimp only at hr
  split_ifs at hr with hu
  · cases hr.2.1
  obtain ⟨found, u, cs₁, cs₂, rfl, -, hr⟩ := Ends.bind_ok hr
  split_ifs at hr
  · cases hr.2.1
  -- the directories, `ffprobe`, `input_meta.json`, `ffmpeg_extract_audio`, `mlx_whisper`
  obtain ⟨-, u, cs₂, cs₃, rfl, -, hr⟩ := Ends.bind_ok hr
  obtain ⟨-, u, cs₄, cs₅, rfl, -, hr⟩ := Ends.bind_ok hr
  obtain ⟨-, u, cs₆, cs₇, rfl, -, hr⟩ := Ends.bind_ok hr
  obtain ⟨probe, u, cs₈, cs₉, rfl, -, hr⟩ := Ends.bind_ok hr
  obtain ⟨-, u, cs₁₀, cs₁₁, rfl, -, hr⟩ := Ends.bind_ok hr
  obtain ⟨-, u, cs₁₂, cs₁₃, rfl, -, hr⟩ := Ends.bind_ok hr
  obtain ⟨-, u₀, cs₁₄, cs₁₅, rfl, -, hr⟩ := Ends.bind_ok hr
  -- the result of whisper
  obtain ⟨raw, u, csRaw, cs₁₆, rfl, hraw, hr⟩ := Ends.bind_ok hr
  obtain ⟨payload, hpayload, hr⟩ := Ends.lift_ok hr
  obtain ⟨text, htext, hr⟩ := Ends.lift_ok hr
  obtain ⟨segments, hsegments, hr⟩ := Ends.lift_ok hr
  -- the files
  obtain ⟨⟨⟩, u₁, csTxt, cs₁₇, rfl, htxt, hr⟩ := Ends.bind_ok hr
  obtain ⟨⟨⟩, u₂, csJson, cs₁₈, rfl, hjson, hr⟩ := Ends.bind_ok hr
  obtain ⟨subtitle, hsubtitle, hr⟩ := Ends.lift_ok hr
  obtain ⟨⟨⟩, u₃, csSrt, cs₁₉, rfl, hsrt, hr⟩ := Ends.bind_ok hr
  -- the reports
  obtain ⟨report, u₄, csQuality, cs₂₀, rfl, hquality, hr⟩ := Ends.bind_ok hr
  obtain ⟨⟨⟩, u₅, csReport, cs₂₁, rfl, hreport, hr⟩ := Ends.bind_ok hr
  split_ifs at hr
  · cases hr.2.1
  obtain ⟨rfl, hresult, rfl⟩ := hr
  cases hresult
  obtain ⟨htxtW, htxtD⟩ := writeText_ends htxt
  obtain ⟨hsrtW, hsrtD⟩ := writeText_ends hsrt
  have hjsonW := (writeText_ends hjson).1
  -- what comes after the subtitle
  have hreports : ∀ q t, (∀ name ∈ ["quality_report.json", "report.md"],
      h.real ((PurePath.ofString outputDir).join name) ≠ q) →
      u₃.entry q = some (.file t) → d'.entry q = some (.file t) := by
    intro q t hne ht
    refine hreport.keeps (Uses.bind (writeText_spares (hne _ (by simp))) fun _ =>
      writeText_spares (hne _ (by simp))) (fun _ _ _ _ ho => ho.keeps) ?_
    exact hquality.keeps (buildQualityReport_spares _) (fun _ _ _ _ ho => ho.keeps) ht
  refine ⟨rfl, unsupportedOutputs_nil (not_not.1 hu), payload, text ++ "\n", subtitle, ?_⟩
  constructor
  · refine ⟨raw, u₀, u, by simp [readText_ends hraw], ?_⟩
    cases hloads : lib.loads raw with
    | error e => rw [hloads] at hpayload; cases hpayload
    | ok v => rw [hloads] at hpayload; cases hpayload; rfl
  · exact ⟨text, segments, htext, hsegments, rfl, hsubtitle⟩
  · exact htxtW.mono fun c hc => by simp [hc]
  · exact ⟨_, hjsonW.mono fun c hc => by simp [hc]⟩
  · exact hsrtW.mono fun c hc => by simp [hc]
  · intro hne
    refine hreports _ _ (fun name hname => hne name (by simp at hname; simp [hname])) ?_
    refine hsrt.keeps (writeText_spares (hne _ (by simp))) (fun _ _ _ _ ho => ho.keeps) ?_
    exact hjson.keeps (writeText_spares (hne _ (by simp))) (fun _ _ _ _ ho => ho.keeps) htxtD
  · exact fun hne => hreports _ _ hne hsrtD

/-! ## Blank texts -/

/-- The text has a character that is no whitespace. -/
def NonBlank (cs : List Char) : Prop := ∃ c ∈ cs, ¬ pyIsSpace c

/-- Whisper's result has a text, and one of the segments that are written has a text;
    both stripped. -/
def HasText (payload : Json) : Prop :=
  ∃ text, textOf payload = .ok text ∧ text ≠ "" ∧
    ∃ segments vs, segmentsOf payload text = .ok segments ∧ segments.items = .ok vs ∧
      ∃ v ∈ vs, ∃ t, textOf v = .ok t ∧ t ≠ ""

theorem textOf_trimmed {v : Json} {text : String} (ht : textOf v = .ok text) :
    Text.Trimmed pyIsSpace text.toList := by
  unfold textOf at ht
  obtain ⟨x, -, ht⟩ := bind_ok ht
  cases x with
  | none =>
    cases ht
    exact ⟨fun h => absurd rfl h, fun h => absurd rfl h⟩
  | some x =>
    dsimp only at ht
    split_ifs at ht with hx
    · cases x with
      | str s =>
        cases ht
        exact pyStrip_trimmed s
      | _ => cases ht
    · cases ht
      exact ⟨fun h => absurd rfl h, fun h => absurd rfl h⟩

/-- A stripped text is blank only if it is empty. -/
theorem nonBlank_iff {text : String} (ht : Text.Trimmed pyIsSpace text.toList) :
    NonBlank text.toList ↔ text ≠ "" := by
  constructor
  · rintro ⟨c, hc, -⟩ rfl
    exact List.not_mem_nil hc
  · intro hne
    have hlist : text.toList ≠ [] := fun h => hne (String.toList_eq_nil_iff.1 h)
    exact ⟨_, List.head_mem hlist, ht.head hlist⟩

theorem segmentCues_mem {index : ℕ} {vs : List Json} {cues : List Srt.Cue}
    (hc : segmentCues lib index vs = .ok cues) :
    (∀ v ∈ vs, ∃ c ∈ cues, textOf v = .ok (String.ofList c.text)) ∧
      ∀ c ∈ cues, ∃ v ∈ vs, textOf v = .ok (String.ofList c.text) := by
  induction vs generalizing index cues with
  | nil =>
    cases hc
    exact ⟨fun v hv => absurd hv List.not_mem_nil, fun c hc => absurd hc List.not_mem_nil⟩
  | cons v vs ih =>
    obtain ⟨c, hv, hc⟩ := bind_ok hc
    obtain ⟨cs, hvs, hc⟩ := bind_ok hc
    cases hc
    have htext : textOf v = .ok (String.ofList c.text) := by
      obtain ⟨start, -, hv⟩ := bind_ok hv
      obtain ⟨stop, -, hv⟩ := bind_ok hv
      obtain ⟨text, htext, hv⟩ := bind_ok hv
      cases hv
      rw [htext, String.ofList_toList]
    obtain ⟨hleft, hright⟩ := ih hvs
    constructor
    · intro w hw
      rcases List.mem_cons.1 hw with rfl | hw
      · exact ⟨c, List.mem_cons_self, htext⟩
      · obtain ⟨c', hc', hw'⟩ := hleft w hw
        exact ⟨c', List.mem_cons_of_mem c hc', hw'⟩
    · intro c' hc'
      rcases List.mem_cons.1 hc' with rfl | hc'
      · exact ⟨v, List.mem_cons_self, htext⟩
      · obtain ⟨w, hw, hw'⟩ := hright c' hc'
        exact ⟨w, List.mem_cons_of_mem v hw, hw'⟩

/-- **A subtitle has a cue with a text if and only if a segment has.** -/
theorem subtitle_nonBlank {segments : Json} {vs : List Json} {subtitle : String}
    (hs : segmentsToSrt lib segments = .ok subtitle) (hvs : segments.items = .ok vs) :
    (∃ c ∈ Srt.cues subtitle.toList, NonBlank c.text) ↔ ∃ v ∈ vs, ∃ t, textOf v = .ok t ∧ t ≠ "" := by
  rw [segmentsToSrt_eq] at hs
  obtain ⟨vs', hvs', hs⟩ := bind_ok hs
  cases hvs.symm.trans hvs'
  obtain ⟨cues, hcues, hs⟩ := bind_ok hs
  cases hs
  obtain ⟨hleft, hright⟩ := segmentCues_mem hcues
  rw [String.toList_ofList]
  constructor
  · -- were all texts empty, the subtitle would be read back with no text
    intro hcue
    by_contra hnone
    have hempty : ∀ c ∈ cues, c.text = [] := by
      intro c hc
      obtain ⟨v, hv, htext⟩ := hright c hc
      by_contra hne
      exact hnone ⟨v, hv, _, htext, fun h => hne (by simpa using congrArg String.toList h)⟩
    have hread : Srt.read (Srt.write cues) = some cues := by
      refine (Srt.read_write cues).2 fun c hc => ?_
      rw [hempty c hc]
      decide
    obtain ⟨c, hc, a, ha, -⟩ := hcue
    rw [Srt.cues_of_read hread] at hc
    rw [hempty c hc] at ha
    cases ha
  · rintro ⟨v, hv, t, ht, hne⟩
    obtain ⟨c, hc, htext⟩ := hleft v hv
    cases ht.symm.trans htext
    have htrim := textOf_trimmed ht
    rw [String.toList_ofList] at htrim
    cases hchars : c.text with
    | nil => exact absurd (by rw [hchars]) hne
    | cons a rest =>
      have ha : ¬ pyIsSpace a := by
        have := htrim.head (by rw [hchars]; exact List.cons_ne_nil a rest)
        simpa [hchars] using this
      refine ⟨_, Srt.write_paragraph hc, a, ?_, ha⟩
      dsimp only
      rw [hchars]
      exact Srt.head_mem_paragraph fun h => ha (by rw [h]; decide)

/-- What was transcribed is not blank if and only if whisper's result had texts. -/
theorem Transcribed.nonBlank_iff {outputDir workDir : PurePath} {payload : Json}
    {transcript subtitle : String}
    (ht : Transcribed lib h outputDir workDir cs d' payload transcript subtitle) :
    (NonBlank transcript.toList ∧ ∃ c ∈ Srt.cues subtitle.toList, NonBlank c.text) ↔
      HasText payload := by
  obtain ⟨text, segments, htext, hsegments, rfl, hsubtitle⟩ := ht.texts
  obtain ⟨vs, hvs⟩ : ∃ vs, segments.items = .ok vs := by
    obtain ⟨vs, hvs, -⟩ := bind_ok hsubtitle
    exact ⟨vs, hvs⟩
  have htranscript : NonBlank (text ++ "\n").toList ↔ text ≠ "" := by
    rw [← MediaOrchard.nonBlank_iff (textOf_trimmed htext), String.toList_append]
    constructor
    · rintro ⟨c, hc, hspace⟩
      rcases List.mem_append.1 hc with hc | hc
      · exact ⟨c, hc, hspace⟩
      · obtain rfl : c = '\n' := by simpa using hc
        exact absurd (by decide) hspace
    · rintro ⟨c, hc, hspace⟩
      exact ⟨c, List.mem_append_left _ hc, hspace⟩
  rw [htranscript, subtitle_nonBlank hsubtitle hvs]
  constructor
  · rintro ⟨hne, hseg⟩
    exact ⟨text, htext, hne, segments, vs, hsegments, hvs, hseg⟩
  · rintro ⟨text', htext', hne, segments', vs', hsegments', hvs', hseg⟩
    cases htext.symm.trans htext'
    cases hsegments.symm.trans hsegments'
    cases hvs.symm.trans hvs'
    exact ⟨hne, hseg⟩

theorem Transcribed.mono {outputDir workDir : PurePath} {payload : Json}
    {transcript subtitle : String} {cs' : List FileCall} (hsub : ∀ c ∈ cs, c ∈ cs')
    (ht : Transcribed lib h outputDir workDir cs d' payload transcript subtitle) :
    Transcribed lib h outputDir workDir cs' d' payload transcript subtitle where
  loaded := by
    obtain ⟨raw, e, e', hmem, hloads⟩ := ht.loaded
    exact ⟨raw, e, e', hsub _ hmem, hloads⟩
  texts := ht.texts
  transcriptTxt := ht.transcriptTxt.mono hsub
  transcriptJson := by
    obtain ⟨data, hw⟩ := ht.transcriptJson
    exact ⟨data, hw.mono hsub⟩
  subtitleSrt := ht.subtitleSrt.mono hsub
  transcriptFile := ht.transcriptFile
  subtitleFile := ht.subtitleFile

/-! ## The gate -/

/-- The file of a requested output. -/
def outputFile (output : String) : String :=
  if output = "srt" then "subtitle.srt"
  else if output = "txt" then "transcript.txt"
  else "transcript.json"

theorem Transcribed.outputs {outputDir workDir : PurePath} {payload : Json}
    {transcript subtitle : String}
    (ht : Transcribed lib h outputDir workDir cs d' payload transcript subtitle) (o : String) :
    ∃ data, Written cs (outputDir.join (outputFile o)) data := by
  unfold outputFile
  split_ifs
  exacts [⟨subtitle, ht.subtitleSrt⟩, ⟨transcript, ht.transcriptTxt⟩, ht.transcriptJson]

/-- A claimed step that was started is run, and what the runner raises is reported. -/
theorem executeClaimedStep_reports (worker : WorkerAgent) {step : Dict} {stepId : String}
    {assignmentEpoch : ℤ} (hclaim : claimOf step = some (stepId, assignmentEpoch)) :
    ∃ k k', executeClaimedStep worker step =
        .call ⟨.startStep stepId ⟨assignmentEpoch⟩, worker.headers⟩ k ∧
      (∀ a, k (.ok a) = .run step k') ∧ ∀ exc, ∃ k'', k' (.error exc) =
        .call ⟨.failStep stepId ⟨⟨assignmentEpoch⟩, exc⟩, worker.headers⟩ k'' := by
  obtain ⟨hid, hepoch⟩ := claimOf_eq_some.1 hclaim
  unfold executeClaimedStep
  rw [hid, hepoch]
  exact ⟨_, _, rfl, fun a => rfl, fun exc => ⟨_, rfl⟩⟩

/-- **The quality gate.**  A claimed step that the real pipeline returns from is
    completed, its requested outputs are supported and were written; transcript and
    subtitle are not blank if and only if whisper's result had texts.  When the runner
    raises instead, the Worker reports the failure. -/
theorem quality_gate (lib : Library) (h : Host) (cmd : CommandSem) (config : WorkerRuntimeConfig)
    (step : Dict) (hmode : config.executionMode = "real") {d d' : Disk} {cs : List FileCall}
    {q : FileProg Dict}
    (hr : Reaches (FileOp.Step h cmd) (runClaimedPipelineStep lib h config step) d cs q d') :
    (∀ output, q = .ret output → ∃ args payload transcript subtitle,
      pipelineArgs lib step = .ok args ∧ Dict.get? output "status" = some (.str "completed") ∧
      (∀ o ∈ args.requestedOutputs, o ∈ ["srt", "txt", "json"] ∧
        ∃ data, Written cs ((PurePath.ofString args.outputDir).join (outputFile o)) data) ∧
      Transcribed lib h (.ofString args.outputDir) (.ofString args.workDir) cs d' payload transcript
        subtitle ∧
      ((NonBlank transcript.toList ∧ ∃ c ∈ Srt.cues subtitle.toList, NonBlank c.text) ↔
        HasText payload)) ∧
    ∀ worker stepId assignmentEpoch, claimOf step = some (stepId, assignmentEpoch) →
      ∃ k k', executeClaimedStep worker step =
          .call ⟨.startStep stepId ⟨assignmentEpoch⟩, worker.headers⟩ k ∧
        (∀ a, k (.ok a) = .run step k') ∧ ∀ exc, ∃ k'', k' (.error exc) =
          .call ⟨.failStep stepId ⟨⟨assignmentEpoch⟩, exc⟩, worker.headers⟩ k'' := by
  constructor
  · rintro output rfl
    have hends : Ends _ (runClaimedPipelineStep lib h config step) d (cs.reverse ++ [])
        (.ok output) d' :=
      hr.ends ⟨rfl, rfl, rfl⟩
    unfold runClaimedPipelineStep at hends
    obtain ⟨args, hargs, hends⟩ := Ends.lift_ok hends
    rw [if_pos hmode] at hends
    obtain ⟨result, u, cs₁, cs₂, hcs, hreal, hends⟩ := Ends.bind_ok hends
    obtain ⟨hstatus, hsupported, payload, transcript, subtitle, ht⟩ := runReal_transcribed hreal
    rw [if_neg (not_not.2 hstatus)] at hends
    obtain ⟨-, houtput, rfl⟩ := hends
    cases houtput
    have hsub : ∀ c ∈ cs₁, c ∈ cs := by
      intro c hc
      have hmem : c ∈ cs.reverse ++ [] := by
        rw [hcs]
        exact List.mem_append_left _ hc
      simpa using hmem
    have ht' := ht.mono hsub
    refine ⟨args, payload, transcript, subtitle, hargs, ?_,
      fun o ho => ⟨hsupported o ho, ht'.outputs o⟩, ht', ht'.nonBlank_iff⟩
    rw [hstatus]
    rfl
  · exact fun worker stepId assignmentEpoch hclaim => executeClaimedStep_reports worker hclaim

/-! ## Runs of a sample step -/

/-- The disk with the input of the sample step. -/
def inputDisk : FiniteDisk :=
  sampleRootDisk.putFile ["media"] "in.mp4" "video" (by decide) (by decide)

/-- A claimed step. -/
def sampleRealStep : Dict := [("id", .str "step_a"), ("job_id", .str "job_a"),
  ("tool_name", .str "video_to_subtitle_pipeline"), ("assignment_epoch", .int 1),
  ("input_json", .obj [("input_file", .str "/media/in.mp4"),
    ("output_dir", .str "/media/output/job_a"), ("work_dir", .str "/media/work/job_a"),
    ("requested_outputs", .arr [.str "srt"])])]

def realConfig : WorkerRuntimeConfig := { nodeId := "mac", executionMode := "real" }

/-- `json.loads` yields the payload. -/
def whisperLibrary (payload : Json) : Library :=
  ⟨fun _ => "\x7b\x7d", fun _ => .ok payload, fun _ => "", id⟩

/-- The run of the sample step with whisper's result. -/
def samplePlay (payload : Json) : Except Exn Dict × List FileCall × FiniteDisk :=
  play (FileOp.exec sampleTree sampleTool) FiniteDisk.toDisk
    (runClaimedPipelineStep (whisperLibrary payload) sampleTree.host realConfig sampleRealStep)
    inputDisk []

theorem samplePlay_reaches (payload : Json) :
    Reaches (FileOp.Step sampleTree.host (toolCommand sampleTree sampleTool))
      (runClaimedPipelineStep (whisperLibrary payload) sampleTree.host realConfig sampleRealStep)
      inputDisk.toDisk (samplePlay payload).2.1 (Eff.end (samplePlay payload).1)
      (samplePlay payload).2.2.toDisk :=
  reaches_play exec_step Reaches.start

/-- Whisper has heard nothing. -/
def silence : Json := .obj [("text", .str " "), ("segments", .arr [])]

def speech : Json := .obj [("text", .str " Hello. "),
  ("segments", .arr [.obj [("start", .float 0), ("end", .float (3 / 2)), ("text", .str " Hello.")]])]

theorem samplePlay_returns (payload : Json) (h : (samplePlay payload).1.isOk) :
    ∃ output, Reaches (FileOp.Step sampleTree.host (toolCommand sampleTree sampleTool))
      (runClaimedPipelineStep (whisperLibrary payload) sampleTree.host realConfig sampleRealStep)
      inputDisk.toDisk (samplePlay payload).2.1 (.ret output) (samplePlay payload).2.2.toDisk := by
  have hr := samplePlay_reaches payload
  cases ho : (samplePlay payload).1 with
  | error e =>
    rw [ho] at h
    cases h
  | ok output =>
    rw [ho] at hr
    exact ⟨output, hr⟩

/-- With speech, the sample step is transcribed. -/
theorem quality_gate_sample : ∃ output cs d' transcript subtitle,
    Reaches (FileOp.Step sampleTree.host (toolCommand sampleTree sampleTool))
      (runClaimedPipelineStep (whisperLibrary speech) sampleTree.host realConfig sampleRealStep)
      inputDisk.toDisk cs (.ret output) d' ∧
    Written cs (.ofString "/media/output/job_a/transcript.txt") transcript ∧
    NonBlank transcript.toList ∧
    Written cs (.ofString "/media/output/job_a/subtitle.srt") subtitle ∧
    ∃ c ∈ Srt.cues subtitle.toList, NonBlank c.text := by
  obtain ⟨output, hr⟩ := samplePlay_returns speech (by decide +kernel)
  obtain ⟨hreturn, -⟩ := quality_gate _ _ _ _ _ rfl hr
  obtain ⟨args, payload, transcript, subtitle, hargs, -, -, ht, hiff⟩ := hreturn output rfl
  obtain ⟨raw, e, e', hmem, hloads⟩ := ht.loaded
  cases hloads
  cases hargs
  have htext : HasText speech := by
    refine ⟨"Hello.", ?_, by decide, _, _, rfl, rfl, _, List.mem_cons_self, "Hello.", ?_, by decide⟩
    · exact congrArg Except.ok (by decide +kernel : pyStrip " Hello. " = "Hello.")
    · exact congrArg Except.ok (by decide +kernel : pyStrip " Hello." = "Hello.")
  obtain ⟨htranscript, hsubtitle⟩ := hiff.2 htext
  exact ⟨output, _, _, transcript, subtitle, hr, ht.transcriptTxt, htranscript, ht.subtitleSrt,
    hsubtitle⟩

/-- The run has written no text to the path but blank ones. -/
def onlyBlank (cs : List FileCall) (p : PurePath) : Bool :=
  cs.all fun c => match c.op with
    | .write p' data => p'.parts ≠ p.parts || data.toList.all pyIsSpace
    | _ => true

/-- With silence, the sample step is completed all the same. -/
theorem quality_gate_counterexample : ¬ ∀ (lib : Library) (h : Host) (cmd : CommandSem)
    (config : WorkerRuntimeConfig) (step : Dict) (d d' : Disk) (cs : List FileCall) (output : Dict)
    (args : PipelineArgs), config.executionMode = "real" → pipelineArgs lib step = .ok args →
    Reaches (FileOp.Step h cmd) (runClaimedPipelineStep lib h config step) d cs (.ret output) d' →
    ∃ transcript, Written cs ((PurePath.ofString args.outputDir).join "transcript.txt") transcript ∧
      NonBlank transcript.toList := by
  intro hall
  obtain ⟨output, hr⟩ := samplePlay_returns silence (by decide +kernel)
  obtain ⟨transcript, ⟨e, e', hmem⟩, c, hc, hspace⟩ := hall _ _ _ _ _ _ _ _ output _ rfl rfl hr
  have hblank : onlyBlank (samplePlay silence).2.1
      ((PurePath.ofString "/media/output/job_a").join "transcript.txt") := by decide +kernel
  have hwrite := List.all_eq_true.1 hblank _ hmem
  simp only [ne_eq, not_true_eq_false, decide_false, Bool.false_or, List.all_eq_true] at hwrite
  exact hspace (hwrite c hc)

end MediaOrchard
