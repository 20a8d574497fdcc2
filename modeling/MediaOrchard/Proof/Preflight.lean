/-
  Preflight over SSH runs what preflight on the host runs, unless the target begins with
  a hyphen.

  * `sshCommand args`: the command behind the options of `ssh` and the destination;
  * `targetWords argv`: the words of the command that an argv runs, on the host or,
    as `ssh` joins its arguments and the remote shell splits them, on another one;
  * `targetWords_buildCommandArgv`: both are the words of the command on the host if
    and only if the target does not begin with a hyphen;
  * `preflightScripts`: the scripts of the checks and their intended tokens;
  * `preflight_same_commands`: every run of the preflight runs these scripts.
-/
import MediaOrchard.Worker.Preflight
import MediaOrchard.Lib.Getopt
import MediaOrchard.Lib.Script

namespace MediaOrchard

open Posix Shell Effects

/-- A word that stands for a text. -/
def textWord (text : String) : Token Arg := .word (.lit text.toList)

/-- The options of `ssh`. -/
def sshOptions : Getopt.Options where
  flags := "1246AaCfGgKkMNnqsTtVvXxYy".toList
  withArgument := "BbcDEeFIiJLlmOoPpQRSWw".toList

/-- The arguments of `ssh` behind its options and the destination, which does not begin with a
    hyphen; options may also follow the destination. -/
def sshCommand (args : List (List Char)) : Option (List (List Char)) := do
  match ← Getopt.operands sshOptions args with
  | [] => none
  | destination :: rest =>
    if destination.head? = some '-' then none else Getopt.operands sshOptions rest

/-- The words of the command that an argv runs. -/
def targetWords : List String → Option (List (Token Arg))
  | "ssh" :: args => (sshCommand (args.map String.toList)).bind fun command =>
    lexArgs ([' '].intercalate command)
  | argv => some (argv.map textWord)

/-- The tokens of quoted texts. -/
theorem map_arg_quoted (texts : List String) :
    ((texts.map String.toList).map fun cs => Token.word (quoted cs)).map (Token.map Word.arg) =
      texts.map textWord := by
  simp [Function.comp_def, Token.map, arg_quoted, textWord]

/-- A shell reads quoted texts back. -/
theorem lexArgs_joinQuoted (texts : List String) :
    lexArgs (joinQuoted (texts.map String.toList)) = some (texts.map textWord) := by
  rw [lexArgs, show lex _ = some _ from Shell.Finishes.joinQuoted _, Option.map_some,
    map_arg_quoted]

/-- `ssh` reads the target and the command behind its own options. -/
theorem operands_sshArgv (words : List (List Char)) :
    Getopt.operands sshOptions (["-o", "BatchMode=yes", "-o", "ConnectTimeout=5"].map
      String.toList ++ words) = Getopt.operands sshOptions words := by
  have hskip : ∀ value words, Getopt.operands sshOptions ("-o".toList :: value :: words) =
      Getopt.operands sshOptions words := fun value words =>
    Getopt.operands_argument (by decide) (by decide) (by decide) value
  simp only [List.map_cons, List.map_nil, List.cons_append, List.nil_append, hskip]

/-- Behind a destination all of the command is read. -/
theorem sshCommand_operand {target : List Char} {word : List Char} {words : List (List Char)}
    (htarget : target.head? ≠ some '-') (hword : word.head? ≠ some '-') :
    sshCommand (["-o", "BatchMode=yes", "-o", "ConnectTimeout=5"].map String.toList ++
      target :: word :: words) = some (word :: words) := by
  rw [sshCommand, operands_sshArgv, Getopt.operands_operand (Getopt.isOption_eq_false htarget)]
  exact (if_neg htarget).trans (Getopt.operands_operand (Getopt.isOption_eq_false hword))

/-- Behind an option `sh` is the destination at most, and `-lc` an option of `ssh`. -/
theorem sshCommand_option {target script : List Char} (htarget : target.head? = some '-')
    {command : List (List Char)}
    (h : sshCommand (["-o", "BatchMode=yes", "-o", "ConnectTimeout=5"].map String.toList ++
      [target, "sh".toList, "-lc".toList, script]) = some command) :
    command = [] ∨ command = [script] := by
  rw [sshCommand, operands_sshArgv] at h
  obtain ⟨operands, hoperands, h⟩ := Option.bind_eq_some_iff.1 h
  rcases Getopt.isOption_or_hyphen htarget with hoption | rfl
  swap
  · rw [Getopt.operands_operand rfl] at hoperands
    cases hoperands
    cases h
  have hsuffix := Getopt.operands_option hoption hoperands
  have hone : ∀ {words : List (List Char)}, words <:+ [script] →
      words = [] ∨ words = [script] := by
    intro words hwords
    rcases List.suffix_cons_iff.1 hwords with h | h
    · exact Or.inr h
    · exact Or.inl (List.suffix_nil.1 h)
  cases operands with
  | nil => cases h
  | cons destination rest =>
    dsimp only at h
    split_ifs at h
    rcases List.suffix_cons_iff.1 hsuffix with heq | hsuffix
    · obtain ⟨-, rfl⟩ := List.cons.inj heq
      exact hone (Getopt.operands_option (by decide) h)
    · have hrest : rest <:+ [script] := by
        rcases List.suffix_cons_iff.1 hsuffix with heq | hsuffix
        · obtain ⟨-, rfl⟩ := List.cons.inj heq
          exact List.suffix_refl _
        · exact (List.suffix_cons _ _).trans hsuffix
      exact hone ((Getopt.operands_suffix h).trans hrest)

/-- **The remote shell gets the words of the command on the host** if and only if the
    target does not begin with a hyphen. -/
theorem targetWords_buildCommandArgv (target script : String) :
    targetWords (buildCommandArgv target script) = some (["sh", "-lc", script].map textWord) ↔
      target.toList.head? ≠ some '-' := by
  unfold buildCommandArgv
  split_ifs with hlocal
  · have hoption : target.toList.head? ≠ some '-' := by
      simp only [isLocalTarget, List.contains_iff_mem, List.mem_cons, List.not_mem_nil,
        or_false] at hlocal
      rcases hlocal with rfl | rfl | rfl | rfl <;> decide
    exact iff_of_true rfl hoption
  · have hquote : [' '].intercalate (["sh", "-lc", shlexQuote script].map String.toList) =
        joinQuoted (["sh", "-lc", script].map String.toList) := by
      rw [← toList_joined, String.toList_intercalate]
      rw [show ["sh", "-lc", script].map shlexQuote = ["sh", "-lc", shlexQuote script] by
        rw [List.map_cons, List.map_cons, show shlexQuote "sh" = "sh" by decide,
          show shlexQuote "-lc" = "-lc" by decide]
        rfl]
      rfl
    have hargs : targetWords (sshArgv target ["sh", "-lc", shlexQuote script]) =
        (sshCommand (["-o", "BatchMode=yes", "-o", "ConnectTimeout=5"].map String.toList ++
          [target.toList, "sh".toList, "-lc".toList, (shlexQuote script).toList])).bind
            fun command => lexArgs ([' '].intercalate command) := rfl
    rw [hargs]
    constructor
    · intro h hoption
      obtain ⟨command, hcommand, hwords⟩ := Option.bind_eq_some_iff.1 h
      have hlength := congrArg (Option.map List.length) hwords
      -- no word is left, or the script alone
      rcases sshCommand_option hoption hcommand with rfl | rfl
      · cases hlength
      · have hone : lexArgs (shlexQuote script).toList = some [textWord script] := by
          simpa using lexArgs_joinQuoted [script]
        rw [List.intercalate_singleton, hone] at hlength
        cases hlength
    · intro hoption
      rw [sshCommand_operand hoption (by decide), Option.bind_some, ← lexArgs_joinQuoted, ← hquote]
      rfl

/-! ## The scripts -/

/-- The program of `check_python_version`. -/
def versionProgram : String :=
  "import sys\n" ++
    "print(f'\x7bsys.version_info.major\x7d.\x7bsys.version_info.minor\x7d." ++
      "\x7bsys.version_info.micro\x7d')\n"

/-- The program of `check_mlx_whisper`. -/
def whisperProgram : String :=
  "import mlx_whisper\n" ++ "print(getattr(mlx_whisper, '__version__', 'present'))\n"

/-- The tokens of a program that `python` reads from a here-document. -/
def pythonTokens (python program : String) : List (Token Arg) :=
  [textWord python, textWord "-", .op .dless, textWord "PY", .newline, .hereDoc program.toList]

/-- The scripts of the checks, with their tokens. -/
def preflightScripts (h : Host) (config : WorkerPreflightConfig) : List (String × List (Token Arg)) :=
  let sharedRoot := (h.expanduser config.sharedRoot).str
  [(pythonVersionScript (shlexQuote config.runtimePythonExecutable),
      pythonTokens config.runtimePythonExecutable versionProgram),
    ("command -v ffmpeg", ["command", "-v", "ffmpeg"].map textWord),
    ("command -v ffprobe", ["command", "-v", "ffprobe"].map textWord),
    (mlxWhisperScript (shlexQuote config.whisperPythonExecutable),
      pythonTokens config.whisperPythonExecutable whisperProgram),
    (sharedRootScript (shlexQuote sharedRoot),
      ["test", "-d", sharedRoot].map textWord ++ [.op .andAnd] ++
        ["printf", "%s\\n", sharedRoot].map textWord)] ++
  match config.sharedRootMarker with
  | none => []
  | some marker =>
    let markerPath := (resolveMarkerPath h config.sharedRoot marker).str
    [("cat " ++ shlexQuote markerPath, ["cat", markerPath].map textWord)]

/-- A quoted text before fixed tokens. -/
theorem lexArgs_quote {text : String} {ts : List (Token Word)} (htext : Separates text.toList)
    (h : Shell.Finishes text.toList ts) (s : String) :
    lexArgs (shlexQuote s ++ text).toList = some (textWord s :: ts.map (Token.map Word.arg)) := by
  rw [String.toList_append, toList_shlexQuote, lexArgs,
    show lex _ = some _ from h.quote_append htext s.toList, Option.map_some, List.map_cons]
  simp [Token.map, arg_quoted, textWord]

/-- The text behind the executable is a here-document that ends the script. -/
theorem lexArgs_python {text program : String} (htext : Separates text.toList)
    (h : Shell.Finishes text.toList [.word (quoted "-".toList), .op .dless,
      .word ("PY".toList.map (.char true)), .newline, .hereDoc program.toList]) (python : String) :
    lexArgs (shlexQuote python ++ text).toList = some (pythonTokens python program) := by
  rw [lexArgs_quote htext h python]
  rfl

theorem lexArgs_pythonVersionScript (python : String) :
    lexArgs (pythonVersionScript (shlexQuote python)).toList =
      some (pythonTokens python versionProgram) := by
  unfold pythonVersionScript
  simp only [String.append_assoc]
  exact lexArgs_python (by decide) (by decide +kernel) python

theorem lexArgs_mlxWhisperScript (python : String) :
    lexArgs (mlxWhisperScript (shlexQuote python)).toList =
      some (pythonTokens python whisperProgram) := by
  unfold mlxWhisperScript
  simp only [String.append_assoc]
  exact lexArgs_python (by decide) (by decide +kernel) python

theorem lexArgs_sharedRootScript (sharedRoot : String) :
    lexArgs (sharedRootScript (shlexQuote sharedRoot)).toList =
      some (["test", "-d", sharedRoot].map textWord ++ [.op .andAnd] ++
        ["printf", "%s\\n", sharedRoot].map textWord) := by
  have hand : Reads " && printf '%s\\n' ".toList [.op .andAnd, .word (quoted "printf".toList),
      .word ("%s\\n".toList.map (.char true))] := by
    decide
  have htext : (sharedRootScript (shlexQuote sharedRoot)).toList =
      joinQuoted (["test", "-d", sharedRoot].map String.toList) ++
        (" && printf '%s\\n' ".toList ++ quote sharedRoot.toList) := by
    unfold sharedRootScript
    simp only [String.toList_append, toList_shlexQuote, List.map_cons, List.map_nil,
      joinQuoted_cons_cons, joinQuoted_singleton, List.append_assoc]
    rfl
  have hlex := Shell.Finishes.joinQuoted_append (Or.inl rfl)
    (hand.finishes (Shell.Finishes.quote sharedRoot.toList))
    (["test", "-d", sharedRoot].map String.toList)
  rw [htext, lexArgs, show lex _ = some _ from hlex, Option.map_some, List.map_append, map_arg_quoted]
  have hformat : Word.arg ("%s\\n".toList.map (.char true)) = .lit "%s\\n".toList := by decide
  simp only [List.map_cons, List.map_nil, Token.map, arg_quoted, hformat, textWord,
    List.cons_append, List.nil_append]

theorem lexArgs_cat (path : String) :
    lexArgs ("cat " ++ shlexQuote path).toList = some (["cat", path].map textWord) := by
  have htext : ("cat " ++ shlexQuote path).toList = joinQuoted (["cat", path].map String.toList) := by
    simp only [String.toList_append, toList_shlexQuote, List.map_cons, List.map_nil,
      joinQuoted_cons_cons, joinQuoted_singleton]
    rfl
  rw [htext, lexArgs, show lex _ = some _ from Shell.Finishes.joinQuoted _, Option.map_some,
    map_arg_quoted]

/-- **The scripts have their tokens**: every text of the configuration is one word. -/
theorem lexArgs_preflightScripts (h : Host) (config : WorkerPreflightConfig) :
    ∀ check ∈ preflightScripts h config, lexArgs check.1.toList = some check.2 := by
  have hffmpeg : lexArgs "command -v ffmpeg".toList =
      some (["command", "-v", "ffmpeg"].map textWord) := by
    decide +kernel
  have hffprobe : lexArgs "command -v ffprobe".toList =
      some (["command", "-v", "ffprobe"].map textWord) := by
    decide +kernel
  unfold preflightScripts
  simp only [List.cons_append, List.nil_append, List.forall_mem_cons]
  refine ⟨lexArgs_pythonVersionScript _, hffmpeg, hffprobe, lexArgs_mlxWhisperScript _,
    lexArgs_sharedRootScript _, ?_⟩
  cases config.sharedRootMarker with
  | none => simp
  | some marker => simpa using lexArgs_cat _

/-! ## The run -/

section
variable (h : Host) (int : String → Option ℤ) (repr : String → String)
  (config : WorkerPreflightConfig)

/-- The call that runs a script on the target. -/
def scriptCall (script : String) : Invocation :=
  ⟨buildCommandArgv config.target script, config.timeoutSeconds, none⟩

/-- A check reads its result off the run of one script. -/
theorem performs_check (script : String) {g : CompletedProcess → RunnerProg PreflightCheck}
    (hg : ∀ completed, Performs (g completed) []) :
    Performs ((runScript config script).bind g) [scriptCall config script] := by
  refine ⟨[], rfl, fun r => ?_⟩
  cases r with
  | ok completed => exact hg completed
  | error => trivial

theorem performs_checkOutput (name script : String) :
    Performs (checkOutput config name script) [scriptCall config script] :=
  performs_check config script fun _ => rfl

theorem performs_checkPythonVersion (python : String) :
    Performs (checkPythonVersion int config python)
      [scriptCall config (pythonVersionScript python)] := by
  unfold checkPythonVersion
  rw [Eff.bind_eq]
  refine performs_check config (pythonVersionScript python) fun completed => ?_
  dsimp only
  split_ifs
  · rfl
  · cases majorMinor int (pyStrip completed.stdout) <;> rfl

theorem performs_checkSharedRootMarker (markerPath : String) :
    Performs (checkSharedRootMarker repr config markerPath)
      [scriptCall config ("cat " ++ markerPath)] := by
  unfold checkSharedRootMarker
  refine performs_check config ("cat " ++ markerPath) fun completed => ?_
  split_ifs
  · rfl
  · cases config.sharedRootMarkerValue with
    | none => rfl
    | some expected =>
      dsimp only
      generalize pyStrip completed.stdout = actual
      split_ifs <;> rfl

/-- **The preflight runs the scripts of its checks.** -/
theorem performs_runWorkerPreflight :
    Performs (runWorkerPreflight h int repr config)
      ((preflightScripts h config).map fun check => scriptCall config check.1) := by
  unfold runWorkerPreflight preflightScripts
  refine (performs_checkPythonVersion int config _).bind fun version => ?_
  refine (performs_checkOutput config _ _).bind fun ffmpeg => ?_
  refine (performs_checkOutput config _ _).bind fun ffprobe => ?_
  refine (performs_checkOutput config _ _).bind fun whisper => ?_
  refine (performs_checkOutput config _ _).bind fun root => ?_
  cases config.sharedRootMarker with
  | none => rfl
  | some marker => exact (performs_checkSharedRootMarker repr config _).bind fun _ => rfl

/-- **Preflight over SSH runs what preflight on the host runs**, as long as the target does not
    begin with a hyphen, which `ssh` takes for an option: then, and only then, each argv is the
    command `sh -lc` with its script, as a remote shell reads it as well, and so in every run the
    calls are the checks in their order, all of them if none raises.  A shell reads each text of
    the configuration in a script as one word, on any target. -/
theorem preflight_same_commands :
    (∀ target script, targetWords (buildCommandArgv target script) =
      some ((buildCommandArgv "local" script).map textWord) ↔ target.toList.head? ≠ some '-') ∧
    (∀ check ∈ preflightScripts h config, lexArgs check.1.toList = some check.2) ∧
    ∀ (cs : List (Effects.Call Invocation (fun _ => Except Exn CompletedProcess) Unit))
      (o : Except Exn WorkerPreflightResult),
      Ends (fun _ _ _ _ => True) (runWorkerPreflight h int repr config) () cs o () →
      let words := (preflightScripts h config).map fun check =>
        some (["sh", "-lc", check.1].map textWord)
      (cs.map (fun c => targetWords c.op.argv) <+: words ∧
        ∀ result, o = .ok result → cs.map (fun c => targetWords c.op.argv) = words) ↔
      config.target.toList.head? ≠ some '-' := by
  refine ⟨fun target script => targetWords_buildCommandArgv target script,
    lexArgs_preflightScripts h config, fun cs o hends => ?_⟩
  obtain ⟨hpre, hall⟩ := (performs_runWorkerPreflight h int repr config).ends hends
  have hcalls : cs.map (fun c => targetWords c.op.argv) =
      (cs.map Effects.Call.op).map fun call => targetWords call.argv := by
    rw [List.map_map]
    rfl
  dsimp only
  constructor
  · rintro ⟨hpre, -⟩
    -- the first check is always called
    obtain ⟨_, _, cs, rfl, -, -⟩ := hends
    exact (targetWords_buildCommandArgv _ _).1 (List.cons_prefix_cons.1 hpre).1
  · intro htarget
    have hwords : (preflightScripts h config).map (fun check =>
        some (["sh", "-lc", check.1].map textWord)) =
        ((preflightScripts h config).map fun check => scriptCall config check.1).map
          fun call => targetWords call.argv := by
      rw [List.map_map]
      exact List.map_congr_left fun check _ =>
        ((targetWords_buildCommandArgv config.target check.1).2 htarget).symm
    rw [hwords, hcalls]
    exact ⟨hpre.map _, fun result ho => congrArg _ (hall result ho)⟩

end

/-- `ssh -G`: the remote shell would get the script without `sh -lc`. -/
theorem preflight_not_same_commands :
    targetWords (buildCommandArgv "-G" "command -v ffmpeg") = some [textWord "command -v ffmpeg"] ∧
    ¬ ∀ target script, targetWords (buildCommandArgv target script) =
      some ((buildCommandArgv "local" script).map textWord) := by
  have hwords : targetWords (buildCommandArgv "-G" "command -v ffmpeg") =
      some [textWord "command -v ffmpeg"] := by
    decide +kernel
  refine ⟨hwords, fun hall => ?_⟩
  have hsame := hall "-G" "command -v ffmpeg"
  rw [hwords] at hsame
  have hlength := congrArg (Option.map List.length) hsame
  cases hlength

end MediaOrchard
