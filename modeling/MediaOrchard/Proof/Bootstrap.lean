/-
  The bootstrap script is a fixed sequence of commands.

  * `bootstrapCommands` are the intended commands, `bootstrapShape` what is fixed of
    them;
  * `lastLine_script`: behind the comment on the wheel, the lines of the script are
    these commands; `line_hereDoc`, `line_install` and the others are its lines;
  * `bootstrap_script`: a shell reads the script as intended if and only if the
    comment has no newline, and executes the intended commands if and only if also
    their names are names of commands.
-/
import MediaOrchard.Worker.Bootstrap
import MediaOrchard.Proof.Allowlist
import MediaOrchard.Lib.Script
import MediaOrchard.Lib.Text

namespace MediaOrchard

open Posix Shell Effects

/-! ## The commands -/

/-- The command of the given words, with redirections. -/
def shellCommand (words : List String) (redirections : List (Op × String)) : Item :=
  .command ⟨[], words.map fun w => .lit w.toList,
    redirections.map fun r => (r.1, .lit r.2.toList)⟩

/-- Lines of a script, each with its newline. -/
def linesText (lines : List String) : List Char := lines.flatMap fun line => line.toList ++ ['\n']

/-- `PATH="/opt/homebrew/bin:/usr/local/bin:$PATH"` -/
def exportedPath : Word :=
  "PATH=".toList.map (.char false) ++
    "/opt/homebrew/bin:/usr/local/bin:".toList.map (.char true) ++ [.param true "PATH".toList]

section
variable (h : Host) (config : WorkerBootstrapConfig)

/-- The comment on the wheel. -/
def commentCommands : List Item :=
  match config.wheelTarget h, config.packageWheel with
  | some wheelTarget, some wheel => [.comment (wheelComment config wheel wheelTarget).toList]
  | _, _ => []

/-- The commands that check that the wheel is there. -/
def wheelCommands : List Item :=
  match config.wheelTarget h with
  | some wheelTarget =>
    [shellCommand ["mkdir", "-p", (config.packagesDir h).str] [],
      shellCommand ["test", "-f", wheelTarget.str] []]
  | none => []

/-- The commands behind the comment. -/
def bootstrapSteps : List Item :=
  [shellCommand ["set", "-euo", "pipefail"] [],
    .command ⟨[], [.lit "export".toList, .expands exportedPath], []⟩,
    shellCommand [config.pythonExecutable, "-"] [(.dless, "PY_VERSION")],
    .hereDoc (linesText ["import sys",
      "raise SystemExit(0 if sys.version_info >= (3, 11) else 1)"]),
    shellCommand (["mkdir", "-p"] ++ config.sharedDirs h) [],
    shellCommand ["mkdir", "-p", (config.expandedInstallRoot h).str] [],
    shellCommand [config.pythonExecutable, "-m", "venv", (config.venvDir h).str] [],
    shellCommand [config.venvPython h, "-m", "pip", "install", "-U", "pip"] []] ++
  wheelCommands h config ++
  [shellCommand ([config.venvPython h, "-m", "pip", "install"] ++ config.packages h) [],
    shellCommand ["command", "-v", "ffmpeg"] [(.great, "/dev/null")],
    shellCommand ["command", "-v", "ffprobe"] [(.great, "/dev/null")],
    shellCommand [config.venvPython h, "-"] [(.dless, "PY_WHISPER")],
    .hereDoc (linesText ["import mlx_whisper",
      "print(getattr(mlx_whisper, '__version__', 'present'))"]),
    shellCommand [config.venvMediaorchard h, "--help"] [(.great, "/dev/null")]]

/-- The commands of the bootstrap script. -/
def bootstrapCommands : List Item := commentCommands h config ++ bootstrapSteps h config

end

/-! ## The lines -/

theorem linesText_append (lines lines' : List String) :
    linesText (lines ++ lines') = linesText lines ++ linesText lines' := List.flatMap_append

theorem linesText_cons (line : String) (lines : List String) :
    linesText (line :: lines) = linesText [line] ++ linesText lines := linesText_append [line] lines

theorem linesText_singleton (line : String) : linesText [line] = line.toList ++ ['\n'] :=
  List.append_nil _

/-- A command of quoted words with the text behind them. -/
theorem line_command (name : String) (args : List String) {text : List Char}
    {rs : List (Op × String)} (rs' : List (Op × Word)) (docs : List (List Char))
    (htext : Separates text) (hrs : ∀ r ∈ rs', r.1.redirects)
    (hreads : Reads text (rs'.flatMap redirection ++ .newline :: docs.map .hereDoc))
    (hargs : rs'.map (fun r => (r.1, Word.arg r.2)) = rs.map fun r => (r.1, .lit r.2.toList)) :
    Line (joinQuoted ((name :: args).map String.toList) ++ text)
      (Word.isCommandName (quoted name.toList))
      (shellCommand (name :: args) rs :: docs.map .hereDoc) := by
  have h := Line.command name.toList (args.map String.toList) docs htext hrs hreads
  have hcommand : shellCommand (name :: args) rs =
      .command (simple name.toList (args.map String.toList) rs') := by
    simp [shellCommand, simple, hargs, Function.comp_def]
  rwa [hcommand]

/-- A line of quoted words. -/
theorem line_words (name : String) (args : List String) :
    Line (joinQuoted ((name :: args).map String.toList) ++ ['\n'])
      (Word.isCommandName (quoted name.toList)) [shellCommand (name :: args) []] :=
  line_command name args [] [] (by decide) (by simp) (by decide) rfl

/-- A line that starts with two fixed words. -/
theorem line_fixed {start first second : String} (args : List String) (hne : args ≠ [])
    (hstart : start.toList = quote first.toList ++ ' ' :: quote second.toList ++ [' '])
    (hname : Word.isCommandName (quoted first.toList)) :
    Line (linesText [start ++ " ".intercalate (args.map shlexQuote)]) True
      [shellCommand (first :: second :: args) []] := by
  obtain ⟨arg, args, rfl⟩ := List.exists_cons_of_ne_nil hne
  have htext : linesText [start ++ " ".intercalate ((arg :: args).map shlexQuote)] =
      joinQuoted ((first :: second :: arg :: args).map String.toList) ++ ['\n'] := by
    rw [linesText_singleton, String.toList_append, toList_joined, hstart]
    simp only [List.map_cons, joinQuoted_cons_cons, List.append_assoc, List.cons_append,
      List.nil_append]
  rw [htext]
  exact (line_words first (second :: arg :: args)).congr (iff_true_intro hname)

theorem line_mkdir (path : String) :
    Line (linesText ["mkdir -p " ++ shlexQuote path]) True [shellCommand ["mkdir", "-p", path] []] :=
  line_fixed [path] (List.cons_ne_nil _ _) (by decide) (by decide)

theorem line_test (path : String) :
    Line (linesText ["test -f " ++ shlexQuote path]) True [shellCommand ["test", "-f", path] []] :=
  line_fixed [path] (List.cons_ne_nil _ _) (by decide) (by decide)

/-- A line that starts with a quoted text. -/
theorem line_quoted {name rest arg : String} {args : List String}
    (hrest : rest.toList = ' ' :: joinQuoted ((arg :: args).map String.toList)) :
    Line (linesText [shlexQuote name ++ rest]) (Word.isCommandName (quoted name.toList))
      [shellCommand (name :: arg :: args) []] := by
  have htext : linesText [shlexQuote name ++ rest] =
      joinQuoted ((name :: arg :: args).map String.toList) ++ ['\n'] := by
    rw [linesText_singleton, String.toList_append, toList_shlexQuote, hrest]
    simp only [List.map_cons, joinQuoted_cons_cons]
  rw [htext]
  exact line_words name (arg :: args)

theorem line_venv (python dir : String) :
    Line (linesText [shlexQuote python ++ " -m venv " ++ shlexQuote dir])
      (Word.isCommandName (quoted python.toList)) [shellCommand [python, "-m", "venv", dir] []] := by
  rw [String.append_assoc]
  refine line_quoted ?_
  rw [String.toList_append, toList_shlexQuote]
  simp only [List.map_cons, List.map_nil, joinQuoted_cons_cons, joinQuoted_singleton]
  rfl

theorem line_upgrade (python : String) :
    Line (linesText [shlexQuote python ++ " -m pip install -U pip"])
      (Word.isCommandName (quoted python.toList))
      [shellCommand [python, "-m", "pip", "install", "-U", "pip"] []] :=
  line_quoted (by decide)

/-- Without a package the line ends with a blank. -/
theorem line_install (python : String) (packages : List String) :
    Line (linesText [shlexQuote python ++ " -m pip install " ++
        " ".intercalate (packages.map shlexQuote)])
      (Word.isCommandName (quoted python.toList))
      [shellCommand ([python, "-m", "pip", "install"] ++ packages) []] := by
  rw [String.append_assoc]
  cases packages with
  | nil =>
    have htext : linesText [shlexQuote python ++ (" -m pip install " ++
        " ".intercalate (([] : List String).map shlexQuote))] =
        joinQuoted ([python, "-m", "pip", "install"].map String.toList) ++ [' ', '\n'] := by
      rw [linesText_singleton, String.toList_append, toList_shlexQuote]
      simp only [List.map_cons, List.map_nil, joinQuoted_cons_cons, joinQuoted_singleton,
        List.append_assoc]
      rfl
    rw [htext]
    exact line_command python ["-m", "pip", "install"] [] [] (by decide) (by simp) (by decide) rfl
  | cons package packages =>
    refine line_quoted ?_
    rw [String.toList_append, toList_joined]
    simp only [List.map_cons]
    rfl

/-- A quoted text that reads its program from a here-document. -/
theorem line_hereDoc (python delimiter : String) (lines : List String)
    (hreads : Reads (linesText ((" <<'" ++ delimiter ++ "'") :: lines ++ [delimiter]))
      [.op .dless, .word (delimiter.toList.map (.char true)), .newline, .hereDoc (linesText lines)])
    (harg : Word.arg (delimiter.toList.map (.char true)) = .lit delimiter.toList) :
    Line (linesText ((shlexQuote python ++ (" - <<'" ++ delimiter ++ "'")) :: lines ++ [delimiter]))
      (Word.isCommandName (quoted python.toList))
      [shellCommand [python, "-"] [(.dless, delimiter)], .hereDoc (linesText lines)] := by
  have htext :
      linesText ((shlexQuote python ++ (" - <<'" ++ delimiter ++ "'")) :: lines ++ [delimiter]) =
      joinQuoted ([python, "-"].map String.toList) ++
        linesText ((" <<'" ++ delimiter ++ "'") :: lines ++ [delimiter]) := by
    simp only [linesText, List.cons_append, List.flatMap_cons, String.toList_append, toList_shlexQuote,
      List.map_cons, List.map_nil, joinQuoted_cons_cons, joinQuoted_singleton, List.append_assoc]
    rfl
  rw [htext]
  refine line_command python ["-"] [(.dless, delimiter.toList.map (.char true))] [linesText lines] ?_
    (by simp [Op.redirects]) hreads ?_
  · exact Or.inl (by simp [linesText])
  · rw [List.map_singleton, harg]
    rfl

theorem line_version (python : String) :
    Line (linesText [shlexQuote python ++ " - <<'PY_VERSION'", "import sys",
        "raise SystemExit(0 if sys.version_info >= (3, 11) else 1)", "PY_VERSION"])
      (Word.isCommandName (quoted python.toList))
      [shellCommand [python, "-"] [(.dless, "PY_VERSION")],
        .hereDoc (linesText ["import sys",
          "raise SystemExit(0 if sys.version_info >= (3, 11) else 1)"])] :=
  line_hereDoc python "PY_VERSION"
    ["import sys", "raise SystemExit(0 if sys.version_info >= (3, 11) else 1)"]
    (by decide +kernel) (by decide)

theorem line_whisper (python : String) :
    Line (linesText [shlexQuote python ++ " - <<'PY_WHISPER'", "import mlx_whisper",
        "print(getattr(mlx_whisper, '__version__', 'present'))", "PY_WHISPER"])
      (Word.isCommandName (quoted python.toList))
      [shellCommand [python, "-"] [(.dless, "PY_WHISPER")],
        .hereDoc (linesText ["import mlx_whisper",
          "print(getattr(mlx_whisper, '__version__', 'present'))"])] :=
  line_hereDoc python "PY_WHISPER"
    ["import mlx_whisper", "print(getattr(mlx_whisper, '__version__', 'present'))"]
    (by decide +kernel) (by decide)

theorem line_settings :
    Line (linesText ["set -euo pipefail", "export PATH=\"/opt/homebrew/bin:/usr/local/bin:$PATH\""])
      True [shellCommand ["set", "-euo", "pipefail"] [],
        .command ⟨[], [.lit "export".toList, .expands exportedPath], []⟩] := by
  refine Line.fixed (["set", "-euo", "pipefail"].map (fun w => .word (quoted w.toList)) ++
    [.newline, .word (quoted "export".toList), .word exportedPath]) ?_ ?_ ?_
  · decide +kernel
  · decide +kernel
  · decide +kernel

theorem line_tools :
    Line (linesText ["command -v ffmpeg >/dev/null", "command -v ffprobe >/dev/null"]) True
      [shellCommand ["command", "-v", "ffmpeg"] [(.great, "/dev/null")],
        shellCommand ["command", "-v", "ffprobe"] [(.great, "/dev/null")]] := by
  refine Line.fixed (["command", "-v", "ffmpeg"].map (fun w => .word (quoted w.toList)) ++
    [.op .great, .word (quoted "/dev/null".toList), .newline] ++
    ["command", "-v", "ffprobe"].map (fun w => .word (quoted w.toList)) ++
    [.op .great, .word (quoted "/dev/null".toList)]) ?_ ?_ ?_
  · decide +kernel
  · decide +kernel
  · decide +kernel

theorem line_help (python : String) :
    LastLine (shlexQuote python ++ " --help >/dev/null").toList
      (Word.isCommandName (quoted python.toList))
      [shellCommand [python, "--help"] [(.great, "/dev/null")]] := by
  have htext : (shlexQuote python ++ " --help >/dev/null").toList =
      joinQuoted (python.toList :: ["--help".toList]) ++ " >/dev/null".toList := by
    rw [joinQuoted_cons_cons, joinQuoted_singleton, String.toList_append, toList_shlexQuote,
      List.append_assoc]
    rfl
  rw [htext]
  exact LastLine.command python.toList ["--help".toList] [(.great, quoted "/dev/null".toList)]
    (by decide) (by simp [Op.redirects]) (by decide)

/-! ## The script -/

/-- The lines of the script before the last one. -/
theorem toList_script (h : Host) (config : WorkerBootstrapConfig) :
    (buildBootstrapScript h config).toList =
      linesText (commentLines h config) ++
      (linesText ["set -euo pipefail",
          "export PATH=\"/opt/homebrew/bin:/usr/local/bin:$PATH\""] ++
        linesText [shlexQuote config.pythonExecutable ++ " - <<'PY_VERSION'", "import sys",
          "raise SystemExit(0 if sys.version_info >= (3, 11) else 1)", "PY_VERSION"] ++
        linesText ["mkdir -p " ++ " ".intercalate ((config.sharedDirs h).map shlexQuote)] ++
        linesText ["mkdir -p " ++ shlexQuote (config.expandedInstallRoot h).str] ++
        linesText [shlexQuote config.pythonExecutable ++ " -m venv " ++
          shlexQuote (config.venvDir h).str] ++
        linesText [shlexQuote (config.venvPython h) ++ " -m pip install -U pip"] ++
        linesText (wheelLines h config) ++
        (linesText [shlexQuote (config.venvPython h) ++ " -m pip install " ++
            " ".intercalate ((config.packages h).map shlexQuote)] ++
          linesText ["command -v ffmpeg >/dev/null", "command -v ffprobe >/dev/null"] ++
          linesText [shlexQuote (config.venvPython h) ++ " - <<'PY_WHISPER'", "import mlx_whisper",
            "print(getattr(mlx_whisper, '__version__', 'present'))", "PY_WHISPER"] ++
          (shlexQuote (config.venvMediaorchard h) ++ " --help >/dev/null").toList)) := by
  have hconcat : ∀ (lines : List String) (last : String),
      ("\n".intercalate (lines ++ [last])).toList = linesText lines ++ last.toList := by
    intro lines last
    rw [String.toList_intercalate, List.map_append, List.map_singleton, Text.intercalate_concat,
      List.flatMap_map]
    rfl
  simp only [← List.append_assoc]
  simp only [← linesText_append]
  rw [← hconcat, buildBootstrapScript]
  congr 2
  simp

/-- The texts that the comment on the wheel shows have no newline. -/
def CommentClean (h : Host) (config : WorkerBootstrapConfig) : Prop :=
  ∀ wheel ∈ config.packageWheel, '\n' ∉ wheel.str.toList ∧
    '\n' ∉ ((config.packagesDir h).join wheel.name).str.toList

/-- The texts where a command of the script starts are names of commands: no assignments
    and no reserved words. -/
def CommandNames (h : Host) (config : WorkerBootstrapConfig) : Prop :=
  ∀ name ∈ [config.pythonExecutable, config.venvPython h, config.venvMediaorchard h],
    Word.isCommandName (quoted name.toList)

section
variable {h : Host} {config : WorkerBootstrapConfig}

theorem not_mem_wheelComment (config : WorkerBootstrapConfig) {wheel wheelTarget : PurePath} :
    '\n' ∉ (wheelComment config wheel wheelTarget).toList ↔
      '\n' ∉ wheel.str.toList ∧ '\n' ∉ wheelTarget.str.toList := by
  unfold wheelComment
  split_ifs <;> simp [String.toList_append]

theorem line_comment (hclean : CommentClean h config) :
    Line (linesText (commentLines h config)) True (commentCommands h config) := by
  unfold commentLines commentCommands WorkerBootstrapConfig.wheelTarget
  cases hwheel : config.packageWheel with
  | none => exact Line.nil
  | some wheel =>
    have hline := Line.comment ((not_mem_wheelComment config).2 (hclean wheel hwheel))
    simpa [linesText] using hline

theorem line_wheel (h : Host) (config : WorkerBootstrapConfig) :
    Line (linesText (wheelLines h config)) True (wheelCommands h config) := by
  unfold wheelLines wheelCommands
  cases config.wheelTarget h with
  | none => exact Line.nil
  | some wheelTarget =>
    dsimp only
    rw [linesText_cons]
    exact ((line_mkdir _).append (line_test wheelTarget.str)).congr (and_self_iff)

/-- **The script is its commands** behind what the comment on the wheel is. -/
theorem lastLine_script {ok : Prop} {items : List Item}
    (hcomment : Line (linesText (commentLines h config)) ok items) :
    LastLine (buildBootstrapScript h config).toList (ok ∧ CommandNames h config)
      (items ++ bootstrapSteps h config) := by
  have hdirs : Line (linesText ["mkdir -p " ++ " ".intercalate ((config.sharedDirs h).map shlexQuote)])
      True [shellCommand ("mkdir" :: "-p" :: config.sharedDirs h) []] :=
    line_fixed (config.sharedDirs h) (by simp [WorkerBootstrapConfig.sharedDirs, sharedRootDirs])
      (by decide) (by decide)
  have hroot := line_mkdir (config.expandedInstallRoot h).str
  have hvenv := line_venv config.pythonExecutable (config.venvDir h).str
  have hupgrade := line_upgrade (config.venvPython h)
  have hinstall := line_install (config.venvPython h) (config.packages h)
  have hwhisper := line_whisper (config.venvPython h)
  have hstart := ((((line_settings.append (line_version config.pythonExecutable)).append
    hdirs).append hroot).append hvenv).append hupgrade
  have hend := ((hinstall.append line_tools).append hwhisper).last
    (line_help (config.venvMediaorchard h)) (List.cons_ne_nil _ _)
  have hsteps := hcomment.last ((hstart.append (line_wheel h config)).last hend (by simp)) (by simp)
  rw [toList_script]
  refine hsteps.congr ?_
  simp only [CommandNames, List.forall_mem_cons, List.not_mem_nil, false_imp_iff, implies_true,
    true_and, and_true]
  constructor
  · rintro ⟨hok, ⟨⟨hpython, -⟩, hvenv⟩, -, hmediaorchard⟩
    exact ⟨hok, hpython, hvenv, hmediaorchard⟩
  · rintro ⟨hok, hpython, hvenv, hmediaorchard⟩
    exact ⟨hok, ⟨⟨hpython, hpython⟩, hvenv⟩, ⟨hvenv, hvenv⟩, hmediaorchard⟩

/-- A comment of the script has no newline if it is read as a comment. -/
theorem commentClean_of_comment
    (hcomment : ∀ text, .comment text ∈ commentCommands h config → '\n' ∉ text) :
    CommentClean h config := by
  intro wheel hwheel
  rw [Option.mem_def] at hwheel
  refine (not_mem_wheelComment config).1 (hcomment _ ?_)
  simp [commentCommands, WorkerBootstrapConfig.wheelTarget, hwheel]

theorem comment_mem_bootstrapCommands {text : List Char}
    (htext : .comment text ∈ commentCommands h config) :
    .comment text ∈ bootstrapCommands h config := by
  exact List.mem_append_left _ htext

/-- A comment among the parts of a script is one of its tokens. -/
theorem comment_mem_render {text : List Char}
    (htext : .comment text ∈ commentCommands h config) :
    .comment text ∈ render (bootstrapCommands h config) := by
  rw [bootstrapCommands, render_append _ (by simp [bootstrapSteps])]
  exact List.mem_append_left _ (List.mem_flatMap.2 ⟨.comment text, htext, List.mem_cons_self⟩)

theorem lexArgs_script :
    lexArgs (buildBootstrapScript h config).toList = some (render (bootstrapCommands h config)) ↔
      CommentClean h config := by
  constructor
  · intro hlex
    obtain ⟨ts, hts, hmap⟩ := Option.map_eq_some_iff.1 hlex
    refine commentClean_of_comment fun text htext => ?_
    have hmem := comment_mem_render htext
    rw [← hmap, List.mem_map] at hmem
    obtain ⟨t, ht, harg⟩ := hmem
    have honeLine := lex_oneLine hts t ht
    cases t <;> cases harg
    exact honeLine
  · intro hclean
    obtain ⟨ts, hfinishes, hts, -⟩ := lastLine_script (line_comment hclean)
    rw [lexArgs, show lex _ = some ts from hfinishes, Option.map_some, hts, bootstrapCommands]

theorem commands_script :
    commands (buildBootstrapScript h config).toList = some (bootstrapCommands h config) ↔
      CommentClean h config ∧ CommandNames h config := by
  have hparse : CommentClean h config →
      (commands (buildBootstrapScript h config).toList = some (bootstrapCommands h config) ↔
        CommandNames h config) := by
    intro hclean
    obtain ⟨ts, hfinishes, -, hparse⟩ := lastLine_script (line_comment hclean)
    rw [commands, show lex _ = some ts from hfinishes, Option.bind_some, bootstrapCommands, hparse,
      true_and]
  constructor
  · intro hcommands
    have hclean : CommentClean h config := commentClean_of_comment fun text htext =>
      commands_oneLine hcommands (comment_mem_bootstrapCommands htext)
    exact ⟨hclean, (hparse hclean).1 hcommands⟩
  · exact fun ⟨hclean, hnames⟩ => (hparse hclean).2 hnames

end

/-! ## The shape of the script -/

/-- A part without the texts of its words: how many words a command has, and its
    redirections. -/
def shape : Item → Item
  | .command c => .command { c with words := c.words.map fun _ => .lit [] }
  | .comment _ => .comment []
  | i => i

/-- The shape of a command. -/
def shapeOf (words : ℕ) (redirections : List (Op × String)) : Item :=
  shellCommand (List.replicate words "") redirections

/-- The shape of the script for a wheel or not, and for a package to install and the
    package of the transcriber. -/
def bootstrapShape (wheel package whisper : Bool) : List Item :=
  (if wheel then [.comment []] else []) ++
  ([shapeOf 3 [], shapeOf 2 [], shapeOf 2 [(.dless, "PY_VERSION")],
    .hereDoc (linesText ["import sys",
      "raise SystemExit(0 if sys.version_info >= (3, 11) else 1)"]),
    shapeOf 7 [], shapeOf 3 [], shapeOf 4 [], shapeOf 6 []] ++
  (if wheel then [shapeOf 3 [], shapeOf 3 []] else []) ++
  [shapeOf (4 + ((wheel || package).toNat + whisper.toNat)) [],
    shapeOf 3 [(.great, "/dev/null")], shapeOf 3 [(.great, "/dev/null")],
    shapeOf 2 [(.dless, "PY_WHISPER")],
    .hereDoc (linesText ["import mlx_whisper",
      "print(getattr(mlx_whisper, '__version__', 'present'))"]),
    shapeOf 2 [(.great, "/dev/null")]])

theorem shape_shellCommand (words : List String) (rs : List (Op × String)) :
    shape (shellCommand words rs) = shapeOf words.length rs := by
  simp [shape, shapeOf, shellCommand, Function.comp_def, List.map_const']

section
variable (h : Host) (config : WorkerBootstrapConfig)

theorem length_packages : (config.packages h).length =
    (config.packageWheel.isSome || decide (config.packageSpec ≠ "")).toNat +
      (decide (config.whisperPackage ≠ "")).toNat := by
  have hsource : (config.packageWheel.isSome || decide (config.packageSpec ≠ "")) =
      decide (config.packageSource h ≠ "") := by
    unfold WorkerBootstrapConfig.packageSource WorkerBootstrapConfig.wheelTarget
    cases config.packageWheel with
    | none => simp
    | some wheel => simp [PurePath.str_ne_empty]
  rw [hsource]
  unfold WorkerBootstrapConfig.packages
  by_cases hs : config.packageSource h = "" <;> by_cases hw : config.whisperPackage = "" <;>
    simp [hs, hw]

theorem shape_bootstrapCommands : (bootstrapCommands h config).map shape =
    bootstrapShape config.packageWheel.isSome (config.packageSpec ≠ "")
      (config.whisperPackage ≠ "") := by
  have hcomment : (commentCommands h config).map shape =
      if config.packageWheel.isSome then [.comment []] else [] := by
    unfold commentCommands WorkerBootstrapConfig.wheelTarget
    cases config.packageWheel <;> rfl
  have hwheel : (wheelCommands h config).map shape =
      if config.packageWheel.isSome then [shapeOf 3 [], shapeOf 3 []] else [] := by
    unfold wheelCommands WorkerBootstrapConfig.wheelTarget
    cases config.packageWheel <;> rfl
  unfold bootstrapCommands bootstrapSteps bootstrapShape
  rw [List.map_append, List.map_append, List.map_append, hcomment, hwheel, ← length_packages h config]
  simp only [List.map_cons, List.map_nil, shape_shellCommand, List.length_append]
  rfl

end

/-! ## The main result -/

/-- **The bootstrap script is a fixed sequence of commands**: its tokens are those of
    `bootstrapCommands`, each text of the configuration one word, if and only if the comment on
    the wheel shows no newline; and a shell takes them for these commands if and only if also no
    command starts with an assignment or a reserved word. -/
theorem bootstrap_script (h : Host) (config : WorkerBootstrapConfig) :
    (lexArgs (buildBootstrapScript h config).toList = some (render (bootstrapCommands h config)) ↔
      CommentClean h config) ∧
    (commands (buildBootstrapScript h config).toList = some (bootstrapCommands h config) ↔
      CommentClean h config ∧ CommandNames h config) ∧
    (bootstrapCommands h config).map shape =
      bootstrapShape config.packageWheel.isSome (config.packageSpec ≠ "")
        (config.whisperPackage ≠ "") :=
  ⟨lexArgs_script, commands_script, shape_bootstrapCommands h config⟩

/-- A wheel in a directory whose name has newlines. -/
def wheelBehindNewline : WorkerBootstrapConfig :=
  { packageWheel := some (PurePath.ofString "/tmp/a\ntouch pwned\n#/b.whl") }

/-- An executable that a shell reads as an assignment. -/
def assignedPython : WorkerBootstrapConfig := { pythonExecutable := "PATH=/tmp" }

theorem line_injected : Line (linesText (commentLines plainHost wheelBehindNewline)) True
    [.comment " Copy /tmp/a".toList, shellCommand ["touch", "pwned"] [],
      .comment "/b.whl to /home/w/.mediaorchard/packages/b.whl before --execute.".toList] := by
  have htext : commentLines plainHost wheelBehindNewline =
      ["# Copy /tmp/a\ntouch pwned\n#/b.whl to /home/w/.mediaorchard/packages/b.whl " ++
        "before --execute."] := by
    decide +kernel
  rw [htext]
  refine Line.fixed [.comment " Copy /tmp/a".toList, .newline, .word (quoted "touch".toList),
    .word (quoted "pwned".toList), .newline,
    .comment "/b.whl to /home/w/.mediaorchard/packages/b.whl before --execute.".toList] ?_ ?_ ?_
  · decide +kernel
  · decide +kernel
  · decide +kernel

/-- **The bootstrap script runs what stands in a line of its own in the path of the wheel**, and
    does not run an executable whose name assigns a variable. -/
theorem bootstrap_script_injected :
    commands (buildBootstrapScript plainHost wheelBehindNewline).toList =
      some ([.comment " Copy /tmp/a".toList, shellCommand ["touch", "pwned"] [],
        .comment "/b.whl to /home/w/.mediaorchard/packages/b.whl before --execute.".toList] ++
        bootstrapSteps plainHost wheelBehindNewline) ∧
    lexArgs (buildBootstrapScript plainHost wheelBehindNewline).toList ≠
      some (render (bootstrapCommands plainHost wheelBehindNewline)) ∧
    commands (buildBootstrapScript plainHost assignedPython).toList ≠
      some (bootstrapCommands plainHost assignedPython) := by
  refine ⟨?_, fun hlex => ?_, fun hcommands => ?_⟩
  · obtain ⟨ts, hfinishes, -, hparse⟩ := lastLine_script line_injected
    rw [commands, show lex _ = some ts from hfinishes, Option.bind_some]
    refine hparse.2 ⟨trivial, ?_⟩
    unfold CommandNames
    decide +kernel
  · have hclean := (lexArgs_script.1 hlex _ rfl).1
    revert hclean
    decide +kernel
  · have hname := (commands_script.1 hcommands).2 _ List.mem_cons_self
    revert hname
    decide +kernel

end MediaOrchard
