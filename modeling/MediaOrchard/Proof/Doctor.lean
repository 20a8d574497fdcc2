/-
  The doctor reports what it has found (`doctor worker` and `doctor worker-bootstrap` of
  `cli/main.py`).

  * `commandsOf`, `linesOf`: the commands of a run, with what became of them, and its lines;
  * `Reported`: commands for one target after the other, then a report and a verdict;
  * `preflightChecks`: the checks of a preflight, with what they ask for;
  * `Attempted`: the commands of a plan, one after the other until one fails;
  * `doctor_worker_reports`, `doctor_bootstrap_reports`.
-/
import MediaOrchard.Cli.Main
import MediaOrchard.Proof.Allowlist
import MediaOrchard.Proof.Preflight
import Mathlib.Data.List.Forall2

namespace MediaOrchard

open Posix Effects

namespace Cli

variable {σ : Type} {sem : Sem CliOp CliOp.Answer σ} {s t : σ}
  {cs : List (Effects.Call CliOp CliOp.Answer σ)} {out : Except CliExn Unit}

/-! ## What a run does -/

/-- A command that was run, and what became of it. -/
abbrev Ran := Invocation × Except Exn CompletedProcess

/-- A line, and whether it went to the error output. -/
abbrev Line := String × Bool

def commandOf : Effects.Call CliOp CliOp.Answer σ → Option Ran
  | ⟨.run call, answer, _, _⟩ => some (call, answer)
  | _ => none

def lineOf : Effects.Call CliOp CliOp.Answer σ → Option Line
  | ⟨.echo text err, _, _, _⟩ => some (text, err)
  | _ => none

def lookupOf : Effects.Call CliOp CliOp.Answer σ → Option (PurePath × Except Exn Bool)
  | ⟨.exist path, answer, _, _⟩ => some (path, answer)
  | _ => none

/-- The commands that were run. -/
def commandsOf (cs : List (Effects.Call CliOp CliOp.Answer σ)) : List Ran := cs.filterMap commandOf

/-- The lines that were written. -/
def linesOf (cs : List (Effects.Call CliOp CliOp.Answer σ)) : List Line := cs.filterMap lineOf

/-- The paths that were looked for. -/
def lookupsOf (cs : List (Effects.Call CliOp CliOp.Answer σ)) : List (PurePath × Except Exn Bool) :=
  cs.filterMap lookupOf

/-- The command came to its end with exit code 0. -/
def Ran.Clean (r : Ran) : Prop := ∃ completed, r.2 = .ok completed ∧ completed.returncode = 0

/-! ## Lines -/

/-- Write lines. -/
def echoAll : List Line → CliProg Unit := forEach fun line => echo line.1 line.2

theorem forEach_append {β : Type} (f : β → CliProg Unit) (xs ys : List β) :
    (forEach f xs).bind (fun _ => forEach f ys) = forEach f (xs ++ ys) := by
  induction xs with
  | nil => rfl
  | cons x xs ih =>
    show ((f x).bind fun _ => forEach f xs).bind _ = (f x).bind fun _ => forEach f (xs ++ ys)
    rw [Eff.bind_assoc]
    exact congrArg (f x).bind (funext fun _ => ih)

/-- Items whose report is written one after the other. -/
theorem forEach_lines {β : Type} {f : β → CliProg Unit} {lines : β → List Line}
    (hf : ∀ x, f x = echoAll (lines x)) (xs : List β) :
    forEach f xs = echoAll (xs.flatMap lines) := by
  induction xs with
  | nil => rfl
  | cons x xs ih =>
    rw [List.flatMap_cons, echoAll, ← forEach_append]
    show (f x).bind _ = _
    rw [hf x, ih]
    rfl

theorem ends_echoAll {lines : List Line} {o : Except CliExn Unit}
    (h : Ends sem (echoAll lines) s cs o t) :
    commandsOf cs = [] ∧ lookupsOf cs = [] ∧ linesOf cs = lines ∧ o = .ok () := by
  induction lines generalizing s cs with
  | nil =>
    obtain ⟨rfl, rfl, -⟩ := h
    exact ⟨rfl, rfl, rfl, rfl⟩
  | cons line lines ih =>
    obtain ⟨r, u, cs, rfl, -, h⟩ := h
    obtain ⟨hran, hlooked, hlines, ho⟩ := ih h
    exact ⟨hran, hlooked, congrArg (line :: ·) hlines, ho⟩

/-! ## Commands -/

/-- What the operations of a runner mean. -/
abbrev runnerSem (sem : Sem CliOp CliOp.Answer σ) :
    Sem Invocation (fun _ => Except Exn CompletedProcess) σ :=
  Sem.pull CliOp.run (fun _ r => r) sem

/-- The commands of a run of a runner. -/
def ranBy (cs : List (Effects.Call Invocation (fun _ => Except Exn CompletedProcess) σ)) : List Ran :=
  cs.map fun c => (c.op, c.ans)

theorem ends_running {α : Type} {p : RunnerProg α} {o : Except CliExn α}
    (h : Ends sem (running p) s cs o t) :
    ∃ cs' o', Ends (runnerSem sem) p s cs' o' t ∧ commandsOf cs = ranBy cs' ∧ linesOf cs = [] ∧
      lookupsOf cs = [] ∧ o = o'.mapError fun exn => .uncaught exn.text := by
  obtain ⟨cs', o', h', hcs, rfl⟩ := Ends.rename h
  refine ⟨cs', o', h', ?_⟩
  clear h h'
  induction hcs with
  | nil => exact ⟨rfl, rfl, rfl, rfl⟩
  | cons hc _ ih =>
    obtain ⟨r, rfl, rfl⟩ := hc
    exact ⟨congrArg (_ :: ·) ih.1, ih.2⟩

/-! ## Reports -/

section
variable {γ : Type}

/-- Something is done for one target after the other; then there is a report, and the command
    fails if a result does. -/
def reporting (f : String → RunnerProg γ) (report : γ → CliProg Unit) (ok : γ → Bool)
    (targets : List String) : CliProg Unit :=
  (Eff.each (fun target => running (f target)) targets).bind fun results =>
    (forEach report results).bind fun _ =>
      if !results.all ok then .throw (.exit 1) else .ret ()

/-- What was done for a target: it, the commands and the result. -/
abbrev Treated (γ : Type) := String × List Ran × γ

/-- What becomes of that, where `R` says what is done for a target: an exception ends it
    before the report; else the report is on all of the targets. -/
inductive Reported (R : String → List Ran → Except Exn γ → Prop) (lines : γ → List Line)
    (ok : γ → Bool) (targets : List String) : List Ran → List Line → Except CliExn Unit → Prop
  | raised {runs : List (Treated γ)} {target rest ran exn} :
      (∀ p ∈ runs, R p.1 p.2.1 (.ok p.2.2)) → R target ran (.error exn) →
      targets = runs.map (·.1) ++ target :: rest →
      Reported R lines ok targets (runs.flatMap (·.2.1) ++ ran) [] (.error (.uncaught exn.text))
  | reported {runs : List (Treated γ)} :
      (∀ p ∈ runs, R p.1 p.2.1 (.ok p.2.2)) → runs.map (·.1) = targets →
      Reported R lines ok targets (runs.flatMap (·.2.1)) (runs.flatMap fun p => lines p.2.2)
        (if runs.all fun p => ok p.2.2 then .ok () else .error (.exit 1))

variable {f : String → RunnerProg γ} {report : γ → CliProg Unit} {lines : γ → List Line}
  {ok : γ → Bool} {targets : List String} {R : String → List Ran → Except Exn γ → Prop}

theorem commandsOf_append (cs cs' : List (Effects.Call CliOp CliOp.Answer σ)) :
    commandsOf (cs ++ cs') = commandsOf cs ++ commandsOf cs' := List.filterMap_append

theorem linesOf_append (cs cs' : List (Effects.Call CliOp CliOp.Answer σ)) :
    linesOf (cs ++ cs') = linesOf cs ++ linesOf cs' := List.filterMap_append

theorem lookupsOf_append (cs cs' : List (Effects.Call CliOp CliOp.Answer σ)) :
    lookupsOf (cs ++ cs') = lookupsOf cs ++ lookupsOf cs' := List.filterMap_append

/-- What is done for a target, seen from the command line. -/
def Seen (R : String → List Ran → Except Exn γ → Prop) (target : String)
    (cs : List (Effects.Call CliOp CliOp.Answer σ)) (o : Except CliExn γ) : Prop :=
  linesOf cs = [] ∧ lookupsOf cs = [] ∧
    ∃ o', R target (commandsOf cs) o' ∧ o = o'.mapError fun exn => .uncaught exn.text

theorem Seen.returned {target : String} {y : γ} (h : Seen R target cs (.ok y)) :
    R target (commandsOf cs) (.ok y) := by
  obtain ⟨-, -, o', h, ho⟩ := h
  cases o' with
  | ok => cases ho; exact h
  | error => cases ho

/-- The calls for the targets, as commands. -/
theorem seen_all {runs : List (String × List (Effects.Call CliOp CliOp.Answer σ) × γ)}
    (hruns : ∀ p ∈ runs, Seen R p.1 p.2.1 (.ok p.2.2)) :
    ∃ treated : List (Treated γ), (∀ p ∈ treated, R p.1 p.2.1 (.ok p.2.2)) ∧
      runs.map (·.1) = treated.map (·.1) ∧ runs.map (·.2.2) = treated.map (·.2.2) ∧
      commandsOf (runs.flatMap (·.2.1)) = treated.flatMap (·.2.1) ∧
      linesOf (runs.flatMap (·.2.1)) = [] ∧ lookupsOf (runs.flatMap (·.2.1)) = [] := by
  induction runs with
  | nil => exact ⟨[], by simp [commandsOf, linesOf, lookupsOf]⟩
  | cons p runs ih =>
    obtain ⟨hp, hruns⟩ := List.forall_mem_cons.1 hruns
    obtain ⟨treated, hR, htargets, hresults, hran, hsilent, hlooked⟩ := ih hruns
    refine ⟨(p.1, commandsOf p.2.1, p.2.2) :: treated, List.forall_mem_cons.2 ⟨hp.returned, hR⟩,
      congrArg (_ :: ·) htargets, congrArg (_ :: ·) hresults, ?_, ?_, ?_⟩
    · rw [List.flatMap_cons, commandsOf_append, hran, List.flatMap_cons]
    · rw [List.flatMap_cons, linesOf_append, hsilent, hp.1, List.append_nil]
    · rw [List.flatMap_cons, lookupsOf_append, hlooked, hp.2.1, List.append_nil]

/-- The end of a report. -/
theorem ends_report (hlines : ∀ r, report r = echoAll (lines r)) {results : List γ}
    (h : Ends sem ((forEach report results).bind fun _ =>
      if !results.all ok then .throw (.exit 1) else .ret ()) s cs out t) :
    commandsOf cs = [] ∧ lookupsOf cs = [] ∧ linesOf cs = results.flatMap lines ∧
      out = if results.all ok then .ok () else .error (.exit 1) := by
  rw [forEach_lines hlines] at h
  rcases h.bind with ⟨e, rfl, hecho⟩ | ⟨_, v, cs₁, cs₂, rfl, hecho, h⟩
  · cases (ends_echoAll hecho).2.2.2
  · obtain ⟨hran, hlooked, hwritten, -⟩ := ends_echoAll hecho
    have hend : cs₂ = [] ∧ out = if results.all ok then .ok () else .error (.exit 1) := by
      cases hok : results.all ok <;> rw [hok] at h <;> exact ⟨h.1, h.2.1⟩
    rw [hend.1, List.append_nil]
    exact ⟨hran, hlooked, hwritten, hend.2⟩

/-- **A run of a report.** -/
theorem ends_reporting (hlines : ∀ r, report r = echoAll (lines r))
    (hR : ∀ target s cs o t, Ends (runnerSem sem) (f target) s cs o t → R target (ranBy cs) o)
    (h : Ends sem (reporting f report ok targets) s cs out t) :
    lookupsOf cs = [] ∧ Reported R lines ok targets (commandsOf cs) (linesOf cs) out := by
  have hseen : ∀ target s cs o t, Ends sem (running (f target)) s cs o t →
      Seen (σ := σ) R target cs o := by
    intro target s cs o t hends
    obtain ⟨cs', o', h', hran, hsilent, hlooked, ho⟩ := ends_running hends
    exact ⟨hsilent, hlooked, o', hran ▸ hR _ _ _ _ _ h', ho⟩
  rcases h.bind with ⟨e, rfl, heach⟩ | ⟨results, u, cs₁, cs₂, rfl, heach, h⟩
  · obtain ⟨runs, hruns, ⟨-, -, ho⟩ | ⟨x, rest, cs', e', rfl, rfl, hx, ho⟩⟩ := Ends.each hseen heach
    · cases ho
    · cases ho
      obtain ⟨treated, hall, htargets, -, hran, hsilent, hlooked⟩ := seen_all hruns
      obtain ⟨hsilent', hlooked', o', hx, he⟩ := hx
      rw [lookupsOf_append, linesOf_append, commandsOf_append, hran, hsilent, hlooked, hsilent',
        hlooked', htargets]
      cases o' with
      | ok => cases he
      | error exn =>
        cases he
        exact ⟨rfl, .raised hall hx rfl⟩
  · obtain ⟨runs, hruns, ⟨rfl, rfl, ho⟩ | ⟨x, rest, cs', e', -, -, -, ho⟩⟩ := Ends.each hseen heach
    · cases ho
      obtain ⟨treated, hall, htargets, hresults, hran, hsilent, hlooked⟩ := seen_all hruns
      obtain ⟨hran', hlooked', hwritten, rfl⟩ := ends_report hlines h
      rw [lookupsOf_append, linesOf_append, commandsOf_append, hran, hsilent, hlooked, hran',
        hlooked', hwritten, htargets, hresults, List.append_nil, List.append_nil,
        List.nil_append, List.all_map, List.flatMap_map]
      exact ⟨rfl, .reported hall rfl⟩
    · cases ho

end

/-! ## Preflight -/

/-- A check: its script, the verdict on the process that ran it, and what it asks for. -/
structure Check where
  script : String
  verdict : CompletedProcess → PreflightCheck
  asks : CompletedProcess → Prop
  sound : ∀ completed, (verdict completed).ok = true ↔ asks completed

section
variable (h : Host) (int : String → Option ℤ) (repr : String → String)
  (config : WorkerPreflightConfig)

def versionVerdict (completed : CompletedProcess) : PreflightCheck :=
  let version := pyStrip completed.stdout
  if completed.returncode ≠ 0 then ⟨"python>=3.11", false, completed.detail⟩
  else match majorMinor int version with
    | none => ⟨"python>=3.11", false, "unparseable version: " ++ version⟩
    | some parsed => ⟨"python>=3.11", supportsPython parsed,
        if supportsPython parsed then version else "found " ++ version⟩

def outputVerdict (name : String) (completed : CompletedProcess) : PreflightCheck :=
  ⟨name, completed.returncode = 0,
    if completed.returncode = 0 then pyStrip completed.stdout else completed.detail⟩

def markerVerdict (completed : CompletedProcess) : PreflightCheck :=
  let actual := pyStrip completed.stdout
  if completed.returncode ≠ 0 then ⟨"shared_root_marker", false, completed.detail⟩
  else match config.sharedRootMarkerValue with
    | none => ⟨"shared_root_marker", true, actual⟩
    | some expected =>
      if actual ≠ expected then
        ⟨"shared_root_marker", false, "expected " ++ repr expected ++ ", found " ++ repr actual⟩
      else ⟨"shared_root_marker", true, actual⟩

/-- The interpreter runs, and says that it is at least 3.11. -/
def versionCheck (python : String) : Check where
  script := pythonVersionScript (shlexQuote python)
  verdict := versionVerdict int
  asks completed := completed.returncode = 0 ∧
    ∃ version, majorMinor int (pyStrip completed.stdout) = some version ∧ supportsPython version
  sound completed := by
    unfold versionVerdict
    dsimp only
    split_ifs with hcode
    · simp [hcode]
    · cases majorMinor int (pyStrip completed.stdout) with
      | none => simp
      | some version => simp [not_not.1 hcode]

/-- The command ends with exit code 0. -/
def outputCheck (name script : String) : Check where
  script := script
  verdict := outputVerdict name
  asks completed := completed.returncode = 0
  sound completed := by simp [outputVerdict]

/-- The marker can be read, and holds the value that is expected. -/
def markerCheck (path : String) : Check where
  script := "cat " ++ shlexQuote path
  verdict := markerVerdict repr config
  asks completed := completed.returncode = 0 ∧
    ∀ expected, config.sharedRootMarkerValue = some expected → pyStrip completed.stdout = expected
  sound completed := by
    unfold markerVerdict
    dsimp only
    split_ifs with hcode
    · simp [hcode]
    · cases config.sharedRootMarkerValue with
      | none => simp [not_not.1 hcode]
      | some expected =>
        dsimp only
        generalize pyStrip completed.stdout = actual
        split_ifs with hactual
        · simp [hactual]
        · simp [not_not.1 hcode, not_not.1 hactual]

/-- The checks of a preflight. -/
def preflightChecks : List Check :=
  [versionCheck int config.runtimePythonExecutable,
    outputCheck "ffmpeg" "command -v ffmpeg", outputCheck "ffprobe" "command -v ffprobe",
    outputCheck "mlx_whisper" (mlxWhisperScript (shlexQuote config.whisperPythonExecutable)),
    outputCheck "shared_root" (sharedRootScript (shlexQuote (h.expanduser config.sharedRoot).str))] ++
  match config.sharedRootMarker with
  | none => []
  | some marker =>
    [markerCheck repr config (resolveMarkerPath h config.sharedRoot marker).str]

/-- Run a check. -/
def runCheck (check : Check) : RunnerProg PreflightCheck :=
  (runScript config check.script).bind fun completed => .ret (check.verdict completed)

theorem checkPythonVersion_eq (python : String) :
    checkPythonVersion int config (shlexQuote python) = runCheck config (versionCheck int python) := by
  refine congrArg (Eff.bind _) (funext fun completed => ?_)
  show _ = Eff.ret (versionVerdict int completed)
  unfold versionVerdict
  dsimp only
  split_ifs
  · rfl
  · cases majorMinor int (pyStrip completed.stdout) <;> rfl

theorem checkOutput_eq (name script : String) :
    checkOutput config name script = runCheck config (outputCheck name script) := by
  refine congrArg (Eff.bind _) (funext fun completed => ?_)
  show _ = Eff.ret (outputVerdict name completed)
  unfold outputVerdict
  by_cases hcode : completed.returncode = 0 <;> simp [hcode]

theorem checkSharedRootMarker_eq (path : String) :
    checkSharedRootMarker repr config (shlexQuote path) =
      runCheck config (markerCheck repr config path) := by
  refine congrArg (Eff.bind _) (funext fun completed => ?_)
  show _ = Eff.ret (markerVerdict repr config completed)
  unfold markerVerdict
  dsimp only
  split_ifs
  · rfl
  · cases config.sharedRootMarkerValue with
    | none => rfl
    | some expected =>
      dsimp only
      split_ifs <;> rfl

/-- **A preflight runs its checks**, one after the other. -/
theorem runWorkerPreflight_eq :
    runWorkerPreflight h int repr config =
      (Eff.each (runCheck config) (preflightChecks h int repr config)).bind
        fun checks => .ret ⟨config.target, checks⟩ := by
  unfold runWorkerPreflight preflightChecks
  cases config.sharedRootMarker with
  | none =>
    simp only [Eff.each, Eff.bind_assoc, Eff.bind_eq, Eff.ret_bind, List.append_nil,
      checkPythonVersion_eq, checkCommand, checkMlxWhisper, checkSharedRoot, checkOutput_eq]
    rfl
  | some marker =>
    simp only [Eff.each, Eff.bind_assoc, Eff.bind_eq, Eff.ret_bind, List.cons_append,
      List.nil_append, checkPythonVersion_eq, checkCommand, checkMlxWhisper, checkSharedRoot,
      checkOutput_eq, checkSharedRootMarker_eq]
    rfl

/-- What is found out about a target, up to the first check whose runner raises. -/
inductive Examined : List Ran → Except Exn WorkerPreflightResult → Prop
  | raised {found : List (Check × CompletedProcess)} {check rest exn} :
      preflightChecks h int repr config = found.map (·.1) ++ check :: rest →
      Examined (found.map (fun p => (scriptCall config p.1.script, .ok p.2)) ++
        [(scriptCall config check.script, .error exn)]) (.error exn)
  | examined {found : List (Check × CompletedProcess)} :
      found.map (·.1) = preflightChecks h int repr config →
      Examined (found.map fun p => (scriptCall config p.1.script, .ok p.2))
        (.ok ⟨config.target, found.map fun p => p.1.verdict p.2⟩)

/-- The calls of the checks and the checks themselves. -/
def plannedChecks : List (Invocation × Check) :=
  (preflightChecks h int repr config).map fun check => (scriptCall config check.script, check)

end

/-- A check was run and got what it asks for. -/
def Passes (p : Invocation × Check) (r : Ran) : Prop :=
  ∃ completed, r = (p.1, .ok completed) ∧ p.2.asks completed

/-- The runner of a check that passes has not raised. -/
theorem passes_ok {planned : List (Invocation × Check)} {ran : List Ran}
    (hpasses : List.Forall₂ Passes planned ran) : ∀ r ∈ ran, ∃ completed, r.2 = .ok completed := by
  induction hpasses with
  | nil => simp
  | cons hp _ ih =>
    obtain ⟨completed, rfl, -⟩ := hp
    exact List.forall_mem_cons.2 ⟨⟨completed, rfl⟩, ih⟩

variable {h : Host} {int : String → Option ℤ} {repr : String → String}
  {config : WorkerPreflightConfig}

/-- A check in a run. -/
theorem ends_runCheck {rsem : Sem Invocation (fun _ => Except Exn CompletedProcess) σ} {check : Check}
    {cs : List (Effects.Call Invocation (fun _ => Except Exn CompletedProcess) σ)}
    {o : Except Exn PreflightCheck} (hends : Ends rsem (runCheck config check) s cs o t) :
    ∃ answer, ranBy cs = [(scriptCall config check.script, answer)] ∧ o = answer.map check.verdict := by
  obtain ⟨answer, u, cs, rfl, -, hends⟩ := hends
  refine ⟨answer, ?_⟩
  cases answer with
  | ok completed =>
    obtain ⟨rfl, rfl, -⟩ := hends
    exact ⟨rfl, rfl⟩
  | error exn =>
    obtain ⟨rfl, rfl, -⟩ := hends
    exact ⟨rfl, rfl⟩

/-- The checks that were run, each with its process. -/
theorem found_all {runs : List (Check ×
      List (Effects.Call Invocation (fun _ => Except Exn CompletedProcess) σ) × PreflightCheck)}
    (hruns : ∀ p ∈ runs, ∃ answer, ranBy p.2.1 = [(scriptCall config p.1.script, answer)] ∧
      .ok p.2.2 = answer.map p.1.verdict) :
    ∃ found : List (Check × CompletedProcess), runs.map (·.1) = found.map (·.1) ∧
      runs.map (·.2.2) = found.map (fun p => p.1.verdict p.2) ∧
      ranBy (runs.flatMap (·.2.1)) =
        found.map fun p => (scriptCall config p.1.script, .ok p.2) := by
  induction runs with
  | nil => exact ⟨[], rfl, rfl, rfl⟩
  | cons p runs ih =>
    obtain ⟨⟨answer, hran, hresult⟩, hruns⟩ := List.forall_mem_cons.1 hruns
    obtain ⟨found, hchecks, hresults, hrans⟩ := ih hruns
    cases answer with
    | error => cases hresult
    | ok completed =>
      refine ⟨(p.1, completed) :: found, congrArg (_ :: ·) hchecks, ?_, ?_⟩
      · rw [List.map_cons, List.map_cons, hresults, Except.ok.inj hresult]
      · rw [List.flatMap_cons, ranBy, List.map_append]
        exact congrArg₂ (· ++ ·) hran hrans

/-- **A run of a preflight.** -/
theorem ends_runWorkerPreflight {rsem : Sem Invocation (fun _ => Except Exn CompletedProcess) σ}
    {cs : List (Effects.Call Invocation (fun _ => Except Exn CompletedProcess) σ)}
    {o : Except Exn WorkerPreflightResult}
    (hends : Ends rsem (runWorkerPreflight h int repr config) s cs o t) :
    Examined h int repr config (ranBy cs) o := by
  rw [runWorkerPreflight_eq] at hends
  have hcheck : ∀ check s cs o t, Ends rsem (runCheck config check) s cs o t →
      ∃ answer, ranBy cs = [(scriptCall config check.script, answer)] ∧
        o = answer.map check.verdict := fun _ _ _ _ _ => ends_runCheck
  rcases hends.bind with ⟨e, rfl, heach⟩ | ⟨checks, u, cs₁, cs₂, rfl, heach, rfl, rfl, rfl⟩
  · obtain ⟨runs, hruns, ⟨-, -, ho⟩ | ⟨check, rest, cs', e', hchecks, rfl, ⟨answer, hran, he⟩, ho⟩⟩ :=
      Ends.each hcheck heach
    · cases ho
    · cases ho
      obtain ⟨found, hfound, -, hrans⟩ := found_all hruns
      rw [hfound] at hchecks
      have hall : ranBy (runs.flatMap (·.2.1) ++ cs') = ranBy (runs.flatMap (·.2.1)) ++ ranBy cs' :=
        List.map_append
      rw [hall, hrans, hran]
      cases answer with
      | ok => cases he
      | error exn =>
        cases he
        exact .raised hchecks
  · obtain ⟨runs, hruns, ⟨rfl, hchecks, ho⟩ | ⟨check, rest, cs', e', -, -, -, ho⟩⟩ :=
      Ends.each hcheck heach
    · cases ho
      obtain ⟨found, hfound, hresults, hrans⟩ := found_all hruns
      rw [List.append_nil, hrans, hresults]
      exact .examined (hfound.symm.trans hchecks)
    · cases ho

/-- A target passes if its checks have got what they ask for. -/
theorem Examined.passes {ran : List Ran} {result : WorkerPreflightResult}
    (hexamined : Examined h int repr config ran (.ok result)) :
    ∃ found : List ((Invocation × Check) × CompletedProcess),
      plannedChecks h int repr config = found.map (·.1) ∧
      ran = found.map (fun p => (p.1.1, .ok p.2)) ∧
      (result.ok = true ↔ ∀ p ∈ found, p.1.2.asks p.2) := by
  cases hexamined with
  | @examined found hfound =>
    refine ⟨found.map fun p => ((scriptCall config p.1.script, p.1), p.2), ?_, ?_, ?_⟩
    · rw [plannedChecks, ← hfound]
      simp
    · simp
    · simp only [WorkerPreflightResult.ok, List.all_map, List.all_eq_true, Function.comp_apply,
        Check.sound, List.forall_mem_map]

theorem Examined.raises {ran : List Ran} {exn : Exn}
    (hexamined : Examined h int repr config ran (.error exn)) : ∃ call, (call, .error exn) ∈ ran := by
  cases hexamined with
  | raised => exact ⟨_, List.mem_append_right _ (List.mem_singleton.2 rfl)⟩

/-! ## `doctor worker` -/

/-- The line on a check. -/
def checkLine (check : PreflightCheck) : Line :=
  ("  " ++ passed check.ok ++ " " ++ check.name ++ ": " ++ check.detail, false)

/-- The lines on a target. -/
def preflightLines (result : WorkerPreflightResult) : List Line :=
  (result.target ++ " " ++ passed result.ok, false) :: result.checks.map checkLine

theorem reportPreflight_eq (result : WorkerPreflightResult) :
    reportPreflight result = echoAll (preflightLines result) := by
  have hline : ∀ check : PreflightCheck, echo ("  " ++ passed check.ok ++ " " ++ check.name ++
      ": " ++ check.detail) = echoAll [checkLine check] := fun _ => rfl
  show (echo _).bind _ = (echo _).bind _
  rw [forEach_lines hline, ← List.map_eq_flatMap]
  rfl

/-- All targets pass if all checks do. -/
theorem examined_all {o : PreflightOptions} {runs : List (Treated WorkerPreflightResult)}
    (hruns : ∀ p ∈ runs, Examined h int repr (o.config p.1) p.2.1 (.ok p.2.2)) :
    (runs.all fun p => p.2.2.ok) = true ↔
      List.Forall₂ Passes
        ((runs.map (·.1)).flatMap fun target => plannedChecks h int repr (o.config target))
        (runs.flatMap (·.2.1)) := by
  have hfound : ∃ found : List ((Invocation × Check) × CompletedProcess),
      ((runs.map (·.1)).flatMap fun target => plannedChecks h int repr (o.config target)) =
        found.map (·.1) ∧
      runs.flatMap (·.2.1) = found.map (fun p => (p.1.1, .ok p.2)) ∧
      ((runs.all fun p => p.2.2.ok) = true ↔ ∀ p ∈ found, p.1.2.asks p.2) := by
    induction runs with
    | nil => exact ⟨[], by simp⟩
    | cons p runs ih =>
      obtain ⟨hp, hruns⟩ := List.forall_mem_cons.1 hruns
      obtain ⟨found, hplanned, hran, hok⟩ := ih hruns
      obtain ⟨found', hplanned', hran', hok'⟩ := hp.passes
      refine ⟨found' ++ found, ?_, ?_, ?_⟩
      · rw [List.map_cons, List.flatMap_cons, hplanned, hplanned', List.map_append]
      · rw [List.flatMap_cons, hran, hran', List.map_append]
      · rw [List.all_cons, Bool.and_eq_true, hok, hok', List.forall_mem_append]
  obtain ⟨found, hplanned, hran, hok⟩ := hfound
  rw [hok, hplanned, hran, List.forall₂_map_left_iff, List.forall₂_map_right_iff, List.forall₂_same]
  refine forall₂_congr fun p _ => ⟨fun hp => ⟨p.2, rfl, hp⟩, ?_⟩
  rintro ⟨completed, heq, hp⟩
  cases (Prod.mk.inj heq).2
  exact hp

/-- **`doctor worker` tells what it has found.**  It refuses a value of a marker without a marker;
    else it runs every check of every target, whatever fails, and then reports each of them, from
    the process that ran it, unless a runner raises; and it succeeds if and only if every check
    of every target was run and got what it asks for. -/
theorem doctor_worker_reports {o : PreflightOptions}
    (hends : Ends sem (doctorWorker h int repr o) s cs out t) :
    (o.sharedRootMarkerValue.isSome ∧ o.sharedRootMarker.isNone → cs = [] ∧
      out = .error (.badParameter "--shared-root-marker-value requires --shared-root-marker")) ∧
    (¬ (o.sharedRootMarkerValue.isSome ∧ o.sharedRootMarker.isNone) →
      Reported (fun target => Examined h int repr (o.config target)) preflightLines
        WorkerPreflightResult.ok (targetsOr o.targets) (commandsOf cs) (linesOf cs) out ∧
      (out = .ok () ↔ List.Forall₂ Passes
        ((targetsOr o.targets).flatMap fun target => plannedChecks h int repr (o.config target))
        (commandsOf cs))) := by
  unfold doctorWorker at hends
  split_ifs at hends with hmarker
  · obtain ⟨rfl, rfl, -⟩ := hends
    exact ⟨fun _ => ⟨rfl, rfl⟩, fun hnot => absurd hmarker hnot⟩
  refine ⟨fun hm => absurd hm hmarker, fun _ => ?_⟩
  obtain ⟨-, hreported⟩ := ends_reporting (R := fun target => Examined h int repr (o.config target))
    reportPreflight_eq (fun _ _ _ _ _ => ends_runWorkerPreflight) hends
  refine ⟨hreported, ?_⟩
  generalize commandsOf cs = ran at hreported ⊢
  generalize linesOf cs = lines at hreported
  generalize targetsOr o.targets = targets at hreported ⊢
  cases hreported with
  | @raised runs target rest ran exn hruns hraised htargets =>
    -- a check that raised has not passed
    refine iff_of_false (by rintro ⟨⟩) fun hpasses => ?_
    obtain ⟨call, hcall⟩ := hraised.raises
    obtain ⟨completed, hcompleted⟩ := passes_ok hpasses _ (List.mem_append_right _ hcall)
    cases hcompleted
  | @reported runs hruns htargets =>
    rw [← htargets, ← examined_all hruns]
    split_ifs with hall
    · exact iff_of_true rfl hall
    · exact iff_of_false (by rintro ⟨⟩) hall

/-- Two hosts on which every command ends with exit code 0. -/
def sampleExec (stdout : String) : (o : CliOp) → Unit → o.Answer × Unit
  | .exist _, _ => (.ok true, ())
  | .run _, _ => (.ok ⟨0, stdout, ""⟩, ())
  | .request _, _ => (.ok none, ())
  | .work (.post _), _ => (.ok none, ())
  | .work .collectMetrics, _ => (.error "", ())
  | .work (.runStep _), _ => (.error "", ())
  | .work (.sleep _), _ => (.ok (), ())
  | .serve _ _, _ => (.ok (), ())
  | .echo _ _, _ => ((), ())

/-- `int` of the parts of a version. -/
def versionInt (part : String) : Option ℤ :=
  if part = "3" then some 3 else if part = "12" then some 12 else none

/-- The preflight of this host and another one. -/
def samplePreflight : CliProg Unit :=
  doctorWorker plainHost versionInt id { targets := some ["local", "w@10.0.0.2"] }

theorem doctor_worker_reports_sample : ∃ cs,
    Ends (fun _ _ _ _ => True) samplePreflight () cs (.ok ()) () ∧
    List.Forall₂ Passes
      (["local", "w@10.0.0.2"].flatMap fun target => plannedChecks plainHost versionInt id
        { target := target }) (commandsOf cs) := by
  have hends : Ends (fun _ _ _ _ => True) samplePreflight () _ _ _ :=
    ends_play (sampleExec "3.12.1\n") id (fun _ _ => trivial) samplePreflight ()
  have hout : (play (sampleExec "3.12.1\n") id samplePreflight () []).1 = .ok () := by
    decide +kernel
  rw [hout] at hends
  exact ⟨_, hends, ((doctor_worker_reports hends).2 (by decide)).2.1 rfl⟩

/-! ## Bootstrap -/

/-- The commands of the bootstrap of a target. -/
def bootstrapPlan (h : Host) (config : WorkerBootstrapConfig) : List Invocation :=
  (if config.copyWheel ∧ config.packageWheel.isSome then
    (buildWheelCopyCommandArgvs h config).map fun argv => ⟨argv, config.timeoutSeconds, some ""⟩
    else []) ++
  [⟨buildBootstrapCommandArgv config.target, config.timeoutSeconds,
    some (buildBootstrapScript h config)⟩]

/-- The commands of a plan are run one after the other, until one fails or its runner raises. -/
inductive Attempted : List Invocation → List Ran → Except Exn CompletedProcess → Prop
  | raised {call calls exn} : Attempted (call :: calls) [(call, .error exn)] (.error exn)
  | failed {call calls completed} : completed.returncode ≠ 0 →
      Attempted (call :: calls) [(call, .ok completed)] (.ok completed)
  | last {call completed} : completed.returncode = 0 →
      Attempted [call] [(call, .ok completed)] (.ok completed)
  | next {call calls completed ran answer} : completed.returncode = 0 →
      Attempted calls ran answer → Attempted (call :: calls) ((call, .ok completed) :: ran) answer

theorem Attempted.raises {plan : List Invocation} {ran : List Ran} {exn : Exn}
    (h : Attempted plan ran (.error exn)) : ∃ call, (call, .error exn) ∈ ran := by
  generalize ha : Except.error exn = answer at h
  induction h with
  | raised => cases ha; exact ⟨_, List.mem_cons_self⟩
  | failed | last => cases ha
  | next _ _ ih => exact (ih ha).imp fun _ h => List.mem_cons_of_mem _ h

/-- The answer is that of a command. -/
theorem Attempted.answers {plan : List Invocation} {ran : List Ran} {completed : CompletedProcess}
    (h : Attempted plan ran (.ok completed)) : ∃ call, (call, .ok completed) ∈ ran := by
  generalize ha : Except.ok completed = answer at h
  induction h with
  | raised => cases ha
  | failed | last => cases ha; exact ⟨_, List.mem_cons_self⟩
  | next _ _ ih => exact (ih ha).imp fun _ h => List.mem_cons_of_mem _ h

/-- If the last command has not failed, all of them were run, and none has. -/
theorem Attempted.all {plan : List Invocation} {ran : List Ran} {completed : CompletedProcess}
    (h : Attempted plan ran (.ok completed)) (hcode : completed.returncode = 0) :
    ran.map (·.1) = plan ∧ ∀ r ∈ ran, Ran.Clean r := by
  generalize ha : Except.ok completed = answer at h
  induction h with
  | raised => cases ha
  | failed hfailed => cases ha; exact absurd hcode hfailed
  | last => cases ha; exact ⟨rfl, List.forall_mem_singleton.2 ⟨completed, rfl, hcode⟩⟩
  | next hnext _ ih =>
    obtain ⟨hran, hclean⟩ := ih ha
    exact ⟨congrArg (_ :: ·) hran, List.forall_mem_cons.2 ⟨⟨_, rfl, hnext⟩, hclean⟩⟩

section
variable {rsem : Sem Invocation (fun _ => Except Exn CompletedProcess) σ}
  {rcs : List (Effects.Call Invocation (fun _ => Except Exn CompletedProcess) σ)}
  {config : WorkerBootstrapConfig} {o : BootstrapOptions} {ran : List Ran}

/-- A command that ends a bootstrap. -/
theorem ends_invoke {argv : List String} {timeoutSeconds : ℤ} {stdin : Option String}
    {f : CompletedProcess → WorkerBootstrapResult} {result : Except Exn WorkerBootstrapResult}
    (hends : Ends rsem ((invoke argv timeoutSeconds stdin).bind fun completed => .ret (f completed))
      s rcs result t) :
    ∃ answer, Attempted [⟨argv, timeoutSeconds, stdin⟩] (ranBy rcs) answer ∧
      result = answer.map f := by
  obtain ⟨answer, u, rcs, rfl, -, hends⟩ := hends
  cases answer with
  | ok completed =>
    obtain ⟨rfl, rfl, -⟩ := hends
    refine ⟨.ok completed, ?_, rfl⟩
    by_cases hcode : completed.returncode = 0
    exacts [.last hcode, .failed hcode]
  | error exn =>
    obtain ⟨rfl, rfl, -⟩ := hends
    exact ⟨.error exn, .raised, rfl⟩

/-- The commands that copy the wheel, before others. -/
theorem ends_copyWheelCommands {f : CompletedProcess → WorkerBootstrapResult}
    {g : Option CompletedProcess → RunnerProg WorkerBootstrapResult} {calls : List Invocation}
    (hfailed : ∀ completed, g (some completed) = .ret (f completed))
    (hcopied : ∀ s rcs result t, Ends rsem (g none) s rcs result t →
      ∃ answer, Attempted calls (ranBy rcs) answer ∧ result = answer.map f)
    {argvs : List (List String)} {result : Except Exn WorkerBootstrapResult}
    (hends : Ends rsem ((copyWheelCommands config argvs).bind g) s rcs result t) :
    ∃ answer, Attempted ((argvs.map fun argv => ⟨argv, config.timeoutSeconds, some ""⟩) ++ calls)
      (ranBy rcs) answer ∧ result = answer.map f := by
  induction argvs generalizing s rcs with
  | nil => exact hcopied _ _ _ _ hends
  | cons argv argvs ih =>
    obtain ⟨answer, u, rcs, rfl, -, hends⟩ := hends
    cases answer with
    | ok completed =>
      change Ends rsem ((if completed.returncode ≠ 0 then .ret (some completed)
        else copyWheelCommands config argvs).bind g) u rcs result t at hends
      split_ifs at hends with hcode
      · rw [Eff.ret_bind, hfailed] at hends
        obtain ⟨rfl, rfl, -⟩ := hends
        exact ⟨.ok completed, .failed hcode, rfl⟩
      · obtain ⟨answer, hattempted, hresult⟩ := ih hends
        exact ⟨answer, .next (not_not.1 hcode) hattempted, hresult⟩
    | error exn =>
      obtain ⟨rfl, rfl, -⟩ := hends
      exact ⟨.error exn, .raised, rfl⟩

/-- What is done for a target. -/
def Bootstrapped (h : Host) (o : BootstrapOptions) (target : String) (ran : List Ran)
    (result : Except Exn WorkerBootstrapResult) : Prop :=
  if o.execute then
    ∃ answer, Attempted (bootstrapPlan h (o.config target)) ran answer ∧
      result = answer.map (bootstrapResult h (o.config target))
  else ran = [] ∧ result = .ok
    { target := target, executed := false, script := buildBootstrapScript h (o.config target) }

/-- **A run of a bootstrap.** -/
theorem ends_runWorkerBootstrap {target : String} {result : Except Exn WorkerBootstrapResult}
    (hends : Ends rsem (runWorkerBootstrap h (o.config target) o.execute) s rcs result t) :
    Bootstrapped h o target (ranBy rcs) result := by
  unfold Bootstrapped
  unfold runWorkerBootstrap at hends
  cases hexecute : o.execute with
  | false =>
    rw [hexecute] at hends
    obtain ⟨rfl, rfl, -⟩ := hends
    exact ⟨rfl, rfl⟩
  | true =>
    rw [hexecute] at hends
    rw [if_pos rfl, bootstrapPlan]
    by_cases hcopy : (o.config target).copyWheel ∧ (o.config target).packageWheel.isSome
    · rw [if_pos hcopy]
      simp only [if_pos hcopy] at hends
      exact ends_copyWheelCommands (fun _ => rfl) (fun _ _ _ _ h => ends_invoke h) hends
    · rw [if_neg hcopy]
      simp only [if_neg hcopy] at hends
      exact ends_invoke hends

/-! ## `doctor worker-bootstrap` -/

/-- The lines on a target. -/
def bootstrapLines (result : WorkerBootstrapResult) : List Line :=
  if result.executed then
    (result.target ++ " " ++ passed (bootstrapOk result), false) ::
      ((if pyStrip result.stdout ≠ "" then [(pyStrip result.stdout, false)] else []) ++
        if pyStrip result.stderr ≠ "" then [(pyStrip result.stderr, true)] else [])
  else [(result.target ++ " DRY-RUN", false), (result.script, false)]

theorem reportBootstrap_eq (result : WorkerBootstrapResult) :
    reportBootstrap result = echoAll (bootstrapLines result) := by
  unfold reportBootstrap bootstrapLines
  split_ifs <;> rfl

/-- Why the options are refused. -/
def BootstrapOptions.refusal (o : BootstrapOptions) : Option String :=
  if o.packageWheel.isSome ∧ o.packageSpec ≠ "mediaorchard==0.1.0" then
    some "--package-spec cannot be combined with --wheel"
  else if o.copyWheel ∧ o.packageWheel.isNone then some "--copy-wheel requires --wheel"
  else none

/-- The lookups of a run that finds the wheel. -/
def BootstrapOptions.lookups (h : Host) (o : BootstrapOptions) : List (PurePath × Except Exn Bool) :=
  (o.packageWheel.map fun wheel => (h.expanduser wheel, .ok true)).toList

/-- What becomes of `doctor worker-bootstrap`: the wheel cannot be looked for or is not there,
    the options are refused, or the targets are bootstrapped and reported. -/
inductive BootstrapRun (h : Host) (o : BootstrapOptions) :
    List (PurePath × Except Exn Bool) → List Ran → List Line → Except CliExn Unit → Prop
  | unknown {wheel exn} : o.packageWheel = some wheel →
      BootstrapRun h o [(h.expanduser wheel, .error exn)] [] [] (.error (.uncaught exn.text))
  | missing {wheel} : o.packageWheel = some wheel →
      BootstrapRun h o [(h.expanduser wheel, .ok false)] [] []
        (.error (.badParameter "wheel does not exist"))
  | refused {message} : o.refusal = some message →
      BootstrapRun h o (o.lookups h) [] [] (.error (.badParameter message))
  | reported {ran lines out} : o.refusal = none →
      Reported (Bootstrapped h o) bootstrapLines bootstrapOk (targetsOr o.targets) ran lines out →
      BootstrapRun h o (o.lookups h) ran lines out

/-- What comes after the lookup of the wheel. -/
theorem ends_accepted
    (hends : Ends sem (if o.packageWheel.isSome ∧ o.packageSpec ≠ "mediaorchard==0.1.0" then
        .throw (.badParameter "--package-spec cannot be combined with --wheel")
      else if o.copyWheel ∧ o.packageWheel.isNone then
        .throw (.badParameter "--copy-wheel requires --wheel")
      else reporting (fun target => runWorkerBootstrap h (o.config target) o.execute) reportBootstrap
        bootstrapOk (targetsOr o.targets)) s cs out t) :
    lookupsOf cs = [] ∧ BootstrapRun h o (o.lookups h) (commandsOf cs) (linesOf cs) out := by
  by_cases hspec : o.packageWheel.isSome ∧ o.packageSpec ≠ "mediaorchard==0.1.0"
  · rw [if_pos hspec] at hends
    obtain ⟨rfl, rfl, -⟩ := hends
    exact ⟨rfl, .refused (if_pos hspec)⟩
  by_cases hcopy : o.copyWheel ∧ o.packageWheel.isNone
  · rw [if_neg hspec, if_pos hcopy] at hends
    obtain ⟨rfl, rfl, -⟩ := hends
    exact ⟨rfl, .refused ((if_neg hspec).trans (if_pos hcopy))⟩
  · rw [if_neg hspec, if_neg hcopy] at hends
    obtain ⟨hlooked, hreported⟩ := ends_reporting (R := Bootstrapped h o) reportBootstrap_eq
      (fun _ _ _ _ _ => ends_runWorkerBootstrap) hends
    exact ⟨hlooked, .reported ((if_neg hspec).trans (if_neg hcopy)) hreported⟩

/-- **A run of `doctor worker-bootstrap`.** -/
theorem ends_doctorWorkerBootstrap (hends : Ends sem (doctorWorkerBootstrap h o) s cs out t) :
    BootstrapRun h o (lookupsOf cs) (commandsOf cs) (linesOf cs) out := by
  unfold doctorWorkerBootstrap at hends
  cases hwheel : o.packageWheel with
  | none =>
    rw [hwheel] at hends
    obtain ⟨hlooked, hrun⟩ := ends_accepted (by rw [hwheel]; exact hends)
    have hnone : o.lookups h = [] := by rw [BootstrapOptions.lookups, hwheel]; rfl
    rw [hlooked, ← hnone]
    exact hrun
  | some wheel =>
    rw [hwheel] at hends
    obtain ⟨answer, u, cs, rfl, -, hends⟩ := hends
    cases answer with
    | error exn =>
      obtain ⟨rfl, rfl, -⟩ := hends
      exact .unknown hwheel
    | ok there =>
      cases there with
      | false =>
        obtain ⟨rfl, rfl, -⟩ := hends
        exact .missing hwheel
      | true =>
        obtain ⟨hlooked, hrun⟩ := ends_accepted (by rw [hwheel]; exact hends)
        have hfound : o.lookups h = [(h.expanduser wheel, .ok true)] := by
          rw [BootstrapOptions.lookups, hwheel]
          rfl
        rw [show lookupsOf (⟨.exist (h.expanduser wheel), .ok true, s, u⟩ :: cs) =
          (h.expanduser wheel, .ok true) :: lookupsOf cs from rfl, hlooked, ← hfound]
        exact hrun

/-- The results of the targets are good if and only if their commands are. -/
theorem bootstrapped_all {runs : List (Treated WorkerBootstrapResult)}
    (hruns : ∀ p ∈ runs, Bootstrapped h o p.1 p.2.1 (.ok p.2.2)) :
    (runs.all fun p => bootstrapOk p.2.2) = true ↔
      (o.execute → (runs.flatMap (·.2.1)).map (·.1) =
          (runs.map (·.1)).flatMap (fun target => bootstrapPlan h (o.config target)) ∧
        ∀ r ∈ runs.flatMap (·.2.1), Ran.Clean r) := by
  cases hexecute : o.execute with
  | false =>
    refine iff_of_true (List.all_eq_true.2 fun p hp => ?_) (by rintro ⟨⟩)
    have hresult := hruns p hp
    rw [Bootstrapped, hexecute] at hresult
    rw [Except.ok.inj hresult.2]
    rfl
  | true =>
    have hattempted : ∀ p ∈ runs, ∃ completed,
        Attempted (bootstrapPlan h (o.config p.1)) p.2.1 (.ok completed) ∧
          (bootstrapOk p.2.2 = true ↔ completed.returncode = 0) := by
      intro p hp
      have hresult := hruns p hp
      rw [Bootstrapped, if_pos hexecute] at hresult
      obtain ⟨answer, hattempted, hanswer⟩ := hresult
      cases answer with
      | error => cases hanswer
      | ok completed =>
        refine ⟨completed, hattempted, ?_⟩
        rw [Except.ok.inj hanswer]
        exact decide_eq_true_iff
    constructor
    · intro hall _
      rw [List.map_flatMap, List.flatMap_map]
      refine ⟨List.flatMap_congr fun p hp => ?_, ?_⟩
      · obtain ⟨completed, hplan, hok⟩ := hattempted p hp
        exact (hplan.all (hok.1 (List.all_eq_true.1 hall p hp))).1
      · refine List.forall_mem_flatMap.2 fun p hp => ?_
        obtain ⟨completed, hplan, hok⟩ := hattempted p hp
        exact (hplan.all (hok.1 (List.all_eq_true.1 hall p hp))).2
    · intro hclean
      refine List.all_eq_true.2 fun p hp => ?_
      obtain ⟨completed, hplan, hok⟩ := hattempted p hp
      obtain ⟨call, hcall⟩ := hplan.answers
      obtain ⟨completed', hcompleted, hcode⟩ :=
        (hclean rfl).2 _ (List.mem_flatMap.2 ⟨p, hp, hcall⟩)
      cases hcompleted
      exact hok.2 hcode

/-- **`doctor worker-bootstrap` tells what it has done.**  No command is run without `--execute`,
    without the wheel or with options that it refuses.  The commands of a target are those of its
    plan, in order, up to the first that fails; a failure of one target does not keep the next one
    from being bootstrapped; and the command succeeds if and only if the options are accepted, the
    wheel is there and, with `--execute`, every command of every plan was run and has not failed. -/
theorem doctor_bootstrap_reports (hends : Ends sem (doctorWorkerBootstrap h o) s cs out t) :
    BootstrapRun h o (lookupsOf cs) (commandsOf cs) (linesOf cs) out ∧
    (¬ o.execute → commandsOf cs = []) ∧
    (out = .ok () ↔ o.refusal = none ∧ lookupsOf cs = o.lookups h ∧
      (o.execute → (commandsOf cs).map (·.1) =
          (targetsOr o.targets).flatMap (fun target => bootstrapPlan h (o.config target)) ∧
        ∀ r ∈ commandsOf cs, Ran.Clean r)) := by
  have hrun := ends_doctorWorkerBootstrap hends
  refine ⟨hrun, ?_⟩
  generalize lookupsOf cs = lookups at hrun ⊢
  generalize commandsOf cs = ran at hrun ⊢
  generalize linesOf cs = lines at hrun
  cases hrun with
  | unknown hwheel =>
    refine ⟨fun _ => rfl, iff_of_false (by rintro ⟨⟩) ?_⟩
    rintro ⟨-, hlookups, -⟩
    rw [BootstrapOptions.lookups, hwheel] at hlookups
    cases hlookups
  | missing hwheel =>
    refine ⟨fun _ => rfl, iff_of_false (by rintro ⟨⟩) ?_⟩
    rintro ⟨-, hlookups, -⟩
    rw [BootstrapOptions.lookups, hwheel] at hlookups
    cases hlookups
  | refused hrefusal =>
    refine ⟨fun _ => rfl, iff_of_false (by rintro ⟨⟩) ?_⟩
    rintro ⟨hnone, -⟩
    rw [hrefusal] at hnone
    cases hnone
  | reported hrefusal hreported =>
    cases hreported with
    | @raised runs target rest ran exn hruns hraised htargets =>
      -- a runner raised, so the command was executed and its call is not clean
      have hexecute : o.execute := by
        by_contra hnot
        rw [Bootstrapped, if_neg hnot] at hraised
        cases hraised.2
      refine ⟨fun hnot => absurd hexecute hnot, iff_of_false (by rintro ⟨⟩) ?_⟩
      rintro ⟨-, -, hclean⟩
      rw [Bootstrapped, if_pos hexecute] at hraised
      obtain ⟨answer, hattempted, hanswer⟩ := hraised
      cases answer with
      | ok => cases hanswer
      | error exn' =>
        obtain ⟨call, hcall⟩ := hattempted.raises
        obtain ⟨completed, hcompleted, -⟩ :=
          (hclean hexecute).2 _ (List.mem_append_right _ hcall)
        cases hcompleted
    | @reported runs hruns htargets =>
      refine ⟨fun hnot => List.flatMap_eq_nil_iff.2 fun p hp => ?_, ?_⟩
      · have hresult := hruns p hp
        rw [Bootstrapped, if_neg hnot] at hresult
        exact hresult.1
      · rw [← htargets, ← bootstrapped_all hruns]
        simp only [hrefusal, true_and]
        split_ifs with hall
        · exact iff_of_true rfl hall
        · exact iff_of_false (by rintro ⟨⟩) hall

end

/-- The bootstrap of this host and another one, with a wheel that is copied. -/
def sampleBootstrap : CliProg Unit :=
  doctorWorkerBootstrap plainHost
    { targets := some ["local", "w@10.0.0.2"]
      packageWheel := some (.ofString "dist/mediaorchard.whl")
      copyWheel := true
      execute := true }

theorem doctor_bootstrap_reports_sample : ∃ cs,
    Ends (fun _ _ _ _ => True) sampleBootstrap () cs (.ok ()) () ∧
    (commandsOf cs).length = 6 ∧ ∀ r ∈ commandsOf cs, Ran.Clean r := by
  have hends : Ends (fun _ _ _ _ => True) sampleBootstrap () _ _ _ :=
    ends_play (sampleExec "") id (fun _ _ => trivial) sampleBootstrap ()
  have hout : (play (sampleExec "") id sampleBootstrap () []).1 = .ok () := by
    decide +kernel
  rw [hout] at hends
  obtain ⟨-, -, hall⟩ := (doctor_bootstrap_reports hends).2.2.1 rfl
  obtain ⟨hplan, hclean⟩ := hall rfl
  refine ⟨_, hends, ?_, hclean⟩
  rw [← List.length_map (f := Prod.fst), hplan]
  decide +kernel

end Cli

end MediaOrchard
