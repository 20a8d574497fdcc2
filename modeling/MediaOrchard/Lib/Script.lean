/-
  The simple commands of a shell script.

  * `parse c ts`: the parts of a token stream behind the start `c` of a command:
    simple commands with their assignments and redirections, control operators,
    comments and here-documents; a compound command is not parsed;
  * `parse_line`: the parts of a script are those of its lines, one after the other;
  * `parse_name`: where a command starts, a word is its name or an assignment;
  * `commands_oneLine`: no comment of a script has a newline;
  * `Line text ok items`: the text is the parts `items` on lines of their own, as
    tokens, and as commands if and only if `ok`; lines compose to a script
    (`Line.append`, `Line.last`).
-/
import MediaOrchard.Lib.Shell

namespace Shell

/-! ## Commands -/

/-- The words that are reserved where a command starts; `in` is not, it is reserved
    inside a compound command only. -/
def reservedWords : List (List Char) :=
  ["if", "then", "elif", "else", "fi", "time", "for", "until", "while", "do", "done", "case",
    "esac", "coproc", "select", "function", "\x7b", "\x7d", "[[", "]]", "!"].map String.toList

/-- `name=value` or `name+=value` -/
def assigns (text : List Char) : Bool :=
  match text.takeWhile isNameChar, text.dropWhile isNameChar with
  | c :: _, '=' :: _ => isNameStart c
  | c :: _, '+' :: '=' :: _ => isNameStart c
  | _, _ => false

namespace Word

/-- The unquoted characters at the start of a word. -/
def plain : Word → List Char
  | .char false c :: w => c :: plain w
  | _ => []

def isAssignment (w : Word) : Bool := assigns (plain w)

def isReserved (w : Word) : Bool := (plain w).length = w.length && reservedWords.contains (plain w)

/-- Where a command starts, the word is the name of the command. -/
def isCommandName (w : Word) : Bool := !isAssignment w && !isReserved w

end Word

/-- A simple command. -/
structure Command where
  assignments : List Arg
  words : List Arg
  redirections : List (Op × Arg)
  deriving DecidableEq

/-- A part of a script, in order. -/
inductive Item where
  | command (c : Command)
  | op (o : Op)
  | comment (text : List Char)
  | hereDoc (body : List Char)
  deriving DecidableEq

namespace Command

def empty : Command := ⟨[], [], []⟩

def items (c : Command) : List Item := if c = empty then [] else [.command c]

end Command

/-- The parts of a script behind the start `c` of a command; a reserved word would
    start a compound command. -/
def parse (c : Command) : List (Token Word) → Option (List Item)
  | [] => some c.items
  | .newline :: ts => (parse .empty ts).map (c.items ++ ·)
  | .comment text :: ts => (parse .empty ts).map (c.items ++ [.comment text] ++ ·)
  | .hereDoc body :: ts => (parse .empty ts).map (c.items ++ [.hereDoc body] ++ ·)
  | .op o :: .word w :: ts =>
    if o.redirects then parse { c with redirections := c.redirections ++ [(o, Word.arg w)] } ts
    else (parse .empty (.word w :: ts)).map (c.items ++ [.op o] ++ ·)
  | .op o :: ts =>
    if o.redirects then none else (parse .empty ts).map (c.items ++ [.op o] ++ ·)
  | .word w :: ts =>
    if c.words = [] ∧ Word.isAssignment w then
      parse { c with assignments := c.assignments ++ [Word.arg w] } ts
    else if c = .empty ∧ Word.isReserved w then none
    else parse { c with words := c.words ++ [Word.arg w] } ts

/-- The parts of a script. -/
def commands (script : List Char) : Option (List Item) := (lex script).bind (parse .empty)

theorem parse_control {o : Op} (ho : ¬ o.redirects) (c : Command) (ts : List (Token Word)) :
    parse c (.op o :: ts) = (parse .empty ts).map (c.items ++ [.op o] ++ ·) := by
  cases ts with
  | nil => exact if_neg ho
  | cons t ts => cases t <;> exact if_neg ho

theorem map_append_bind {α : Type} (x y : Option (List α)) (before : List α) :
    ((x.map (before ++ ·)).bind fun is => y.map (is ++ ·)) =
      (x.bind fun is => y.map (is ++ ·)).map (before ++ ·) := by
  cases x <;> cases y <;> simp

/-- **The parts of a line come first.** -/
theorem parse_newline (c : Command) (ts us : List (Token Word)) :
    parse c (ts ++ .newline :: us) =
      (parse c ts).bind fun is => (parse .empty us).map (is ++ ·) := by
  fun_induction parse c ts with
  | case1 c => rfl
  | case2 c ts ih | case3 c text ts ih | case4 c body ts ih =>
    rw [List.cons_append, parse, ih, map_append_bind]
  | case5 c o w ts ho ih => simpa [parse, ho] using ih
  | case6 c o w ts ho ih =>
    rw [List.cons_append, parse_control ho, ih, map_append_bind]
  | case7 c o ts hts ho =>
    cases ts with
    | nil => simp [parse, ho]
    | cons t ts => cases t <;> simp_all [parse]
  | case8 c o ts hts ho ih => rw [List.cons_append, parse_control ho, ih, map_append_bind]
  | case9 c w ts h ih => simpa [parse, h] using ih
  | case10 c w ts h h' =>
    rw [List.cons_append, parse, if_neg h, if_pos h']
    rfl
  | case11 c w ts h h' ih => simpa [parse, h, h'] using ih

/-- A line whose parts are known. -/
theorem parse_line {line us : List (Token Word)} {items is : List Item}
    (h : parse .empty line = some items) :
    parse .empty (line ++ .newline :: us) = some (items ++ is) ↔ parse .empty us = some is := by
  rw [parse_newline, h, Option.bind_some, Option.map_eq_some_iff]
  constructor
  · rintro ⟨is', his', happ⟩
    rw [his', List.append_cancel_left happ]
  · exact fun his => ⟨is, his, rfl⟩

/-- What the start of a command has assigned, the first command assigns. -/
theorem parse_assignments {c : Command} {ts : List (Token Word)} {i : Item} {is : List Item}
    (h : parse c ts = some (i :: is)) (hc : c.assignments ≠ []) :
    ∃ c' : Command, i = .command c' ∧ c'.assignments ≠ [] := by
  have hitems : ∀ c : Command, c.assignments ≠ [] → c.items = [.command c] := by
    intro c hc
    refine if_neg ?_
    rintro rfl
    exact hc rfl
  have hfirst : ∀ {c : Command} {x : Option (List Item)} (more : List Item), c.assignments ≠ [] →
      x.map (c.items ++ more ++ ·) = some (i :: is) →
      ∃ c' : Command, i = .command c' ∧ c'.assignments ≠ [] := by
    intro c x more hc h
    obtain ⟨js, -, h⟩ := Option.map_eq_some_iff.1 h
    rw [hitems c hc] at h
    cases h
    exact ⟨c, rfl, hc⟩
  fun_induction parse c ts with
  | case1 c =>
    rw [hitems c hc] at h
    cases h
    exact ⟨c, rfl, hc⟩
  | case2 c => exact hfirst [] hc (by simpa using h)
  | case3 | case4 | case6 | case8 => exact hfirst _ hc h
  | case5 c o w ts ho ih => exact ih h hc
  | case7 | case10 => cases h
  | case9 c w ts hw ih => exact ih h (by simp)
  | case11 c w ts hw hw' ih => exact ih h hc

/-- **Where a command starts, a word is its name or an assignment.** -/
theorem parse_name {w : Word} {us : List (Token Word)} {c : Command} {is : List Item}
    (hc : c.assignments = []) :
    parse .empty (.word w :: us) = some (.command c :: is) ↔
      Word.isCommandName w ∧
        parse { Command.empty with words := [Word.arg w] } us = some (.command c :: is) := by
  rw [parse]
  unfold Word.isCommandName
  cases ha : Word.isAssignment w with
  | true =>
    rw [if_pos ⟨rfl, rfl⟩]
    constructor
    · intro h
      obtain ⟨c', hc', hne⟩ := parse_assignments h (by simp [Command.empty])
      cases hc'
      exact absurd hc hne
    · simp
  | false =>
    rw [if_neg (by simp)]
    cases hr : Word.isReserved w with
    | true => simp
    | false => simp [Command.empty]

/-- The words behind the name of a command. -/
theorem parse_words {c : Command} (hc : c.words ≠ []) (ws : List Word) (us : List (Token Word)) :
    parse c (ws.map .word ++ us) =
      parse { c with words := c.words ++ ws.map Word.arg } us := by
  induction ws generalizing c with
  | nil => simp
  | cons w ws ih =>
    have hne : c ≠ .empty := fun h => hc (by rw [h]; rfl)
    rw [List.map_cons, List.cons_append, parse, if_neg fun h => hc h.1, if_neg fun h => hne h.1,
      ih (by simp)]
    simp

/-- A comment of the parts of a script is a comment of its tokens. -/
theorem parse_comment {c : Command} {ts : List (Token Word)} {is : List Item} {text : List Char}
    (h : parse c ts = some is) (htext : .comment text ∈ is) : .comment text ∈ ts := by
  have hitems : ∀ c : Command, .comment text ∉ c.items := by
    intro c
    unfold Command.items
    split_ifs <;> simp
  have hcut : ∀ {c : Command} {x : Option (List Item)} (more : List Item) {is : List Item},
      x.map (c.items ++ more ++ ·) = some is → .comment text ∈ is →
      .comment text ∈ more ∨ ∃ js, x = some js ∧ .comment text ∈ js := by
    intro c x more is h hmem
    obtain ⟨js, hjs, rfl⟩ := Option.map_eq_some_iff.1 h
    simp only [List.mem_append, hitems c, false_or] at hmem
    exact hmem.imp_right fun hmem => ⟨js, hjs, hmem⟩
  fun_induction parse c ts generalizing is with
  | case1 c =>
    cases h
    exact absurd htext (hitems c)
  | case2 c ts ih =>
    rcases hcut [] (by simpa using h) htext with hmem | ⟨js, hjs, hmem⟩
    · cases hmem
    · exact List.mem_cons_of_mem _ (ih hjs hmem)
  | case3 c text' ts ih =>
    rcases hcut _ h htext with hmem | ⟨js, hjs, hmem⟩
    · cases List.mem_singleton.1 hmem
      exact List.mem_cons_self
    · exact List.mem_cons_of_mem _ (ih hjs hmem)
  | case4 c _ ts ih | case6 c _ _ ts _ ih | case8 c _ ts _ _ ih =>
    rcases hcut _ h htext with hmem | ⟨js, hjs, hmem⟩
    · cases List.mem_singleton.1 hmem
    · exact List.mem_cons_of_mem _ (ih hjs hmem)
  | case5 c o w ts ho ih => exact List.mem_cons_of_mem _ (List.mem_cons_of_mem _ (ih h htext))
  | case7 | case10 => cases h
  | case9 c w ts hw ih => exact List.mem_cons_of_mem _ (ih h htext)
  | case11 c w ts hw hw' ih => exact List.mem_cons_of_mem _ (ih h htext)

/-- **No comment of the parts of a script has a newline.** -/
theorem commands_oneLine {script : List Char} {is : List Item} {text : List Char}
    (h : commands script = some is) (htext : .comment text ∈ is) : '\n' ∉ text := by
  obtain ⟨ts, hlex, hparse⟩ := Option.bind_eq_some_iff.1 h
  exact lex_oneLine hlex _ (parse_comment hparse htext)

/-! ## Lines -/

/-- The tokens of a part that stands on a line of its own. -/
def Item.tokens : Item → List (Token Arg)
  | command c => (c.assignments ++ c.words).map .word ++
      c.redirections.flatMap (fun r => [.op r.1, .word r.2]) ++ [.newline]
  | op o => [.op o]
  | comment text => [.comment text, .newline]
  | hereDoc body => [.hereDoc body]

/-- The tokens of a script, with what its words stand for. -/
def lexArgs (script : List Char) : Option (List (Token Arg)) :=
  (lex script).map (List.map (Token.map Word.arg))

/-- The tokens of a script of such parts; no newline ends it. -/
def render (items : List Item) : List (Token Arg) := (items.flatMap Item.tokens).dropLast

theorem render_append (items : List Item) {items' : List Item} (hne : items' ≠ []) :
    render (items ++ items') = items.flatMap Item.tokens ++ render items' := by
  have hne' : items'.flatMap Item.tokens ≠ [] := by
    obtain ⟨i, is, rfl⟩ := List.exists_cons_of_ne_nil hne
    cases i <;> simp [Item.tokens]
  rw [render, List.flatMap_append, List.dropLast_append_of_ne_nil hne', render]

/-- The text is lines with the given parts: its tokens are theirs, and so are its
    commands if and only if `ok`. -/
def Line (text : List Char) (ok : Prop) (items : List Item) : Prop :=
  ∃ ts, Reads text ts ∧ ts.map (Token.map Word.arg) = items.flatMap Item.tokens ∧
    ∀ us is, parse .empty (ts ++ us) = some (items ++ is) ↔ ok ∧ parse .empty us = some is

/-- The text is such lines at the end of a script. -/
def LastLine (text : List Char) (ok : Prop) (items : List Item) : Prop :=
  ∃ ts, Finishes text ts ∧ ts.map (Token.map Word.arg) = render items ∧
    (parse .empty ts = some items ↔ ok)

namespace Line
variable {text text' : List Char} {ok ok' : Prop} {items items' : List Item}

theorem nil : Line [] True [] := ⟨[], rfl, rfl, by simp⟩

theorem append (h : Line text ok items) (h' : Line text' ok' items') :
    Line (text ++ text') (ok ∧ ok') (items ++ items') := by
  obtain ⟨ts, hreads, hts, hparse⟩ := h
  obtain ⟨ts', hreads', hts', hparse'⟩ := h'
  refine ⟨ts ++ ts', hreads.append hreads', by simp [hts, hts'], fun us is => ?_⟩
  rw [List.append_assoc, List.append_assoc, hparse, hparse', and_assoc]

theorem last (h : Line text ok items) (h' : LastLine text' ok' items') (hne : items' ≠ []) :
    LastLine (text ++ text') (ok ∧ ok') (items ++ items') := by
  obtain ⟨ts, hreads, hts, hparse⟩ := h
  obtain ⟨ts', hfinishes, hts', hparse'⟩ := h'
  refine ⟨ts ++ ts', hreads.finishes hfinishes, ?_, by rw [hparse, hparse']⟩
  rw [List.map_append, hts, hts', render_append items hne]

theorem congr (h : Line text ok items) (hok : ok ↔ ok') : Line text ok' items := by
  obtain ⟨ts, hreads, hts, hparse⟩ := h
  exact ⟨ts, hreads, hts, fun us is => by rw [hparse, hok]⟩

/-- A fixed line. -/
theorem fixed (line : List (Token Word)) (hreads : Reads text (line ++ [.newline]))
    (hline : List.map (Token.map Word.arg) (line ++ [.newline]) = items.flatMap Item.tokens)
    (hparse : parse .empty line = some items) : Line text True items := by
  refine ⟨line ++ [.newline], hreads, hline, fun us is => ?_⟩
  rw [List.append_assoc, true_and]
  exact parse_line hparse

theorem comment (h : '\n' ∉ text) : Line ('#' :: text ++ ['\n']) True [.comment text] :=
  fixed [.comment text] (Reads.comment h) rfl rfl

end Line

theorem LastLine.congr {text : List Char} {ok ok' : Prop} {items : List Item}
    (h : LastLine text ok items) (hok : ok ↔ ok') : LastLine text ok' items := by
  obtain ⟨ts, hfinishes, hts, hparse⟩ := h
  exact ⟨ts, hfinishes, hts, hparse.trans hok⟩

/-- The tokens of a redirection. -/
def redirection (r : Op × Word) : List (Token Word) := [.op r.1, .word r.2]

theorem parse_redirections {rs : List (Op × Word)} (hrs : ∀ r ∈ rs, r.1.redirects) (c : Command)
    (us : List (Token Word)) :
    parse c (rs.flatMap redirection ++ us) =
      parse { c with redirections := c.redirections ++ rs.map (fun r => (r.1, Word.arg r.2)) } us := by
  induction rs generalizing c with
  | nil => simp
  | cons r rs ih =>
    have hr : r.1.redirects := hrs r List.mem_cons_self
    simp only [List.flatMap_cons, redirection, List.cons_append, List.nil_append, parse, hr, if_true]
    rw [ih fun r' hr' => hrs r' (List.mem_cons_of_mem r hr')]
    simp

theorem parse_hereDocs (docs : List (List Char)) (us : List (Token Word)) (is : List Item) :
    parse .empty (docs.map .hereDoc ++ us) = some (docs.map .hereDoc ++ is) ↔
      parse .empty us = some is := by
  induction docs with
  | nil => rfl
  | cons doc docs ih =>
    rw [List.map_cons, List.map_cons, List.cons_append, List.cons_append, ← ih, parse,
      Option.map_eq_some_iff]
    constructor
    · rintro ⟨is', his', h⟩
      cases h
      exact his'
    · exact fun h => ⟨_, h, rfl⟩

section Simple
variable (name : List Char) (args : List (List Char)) (rs : List (Op × Word))

/-- The simple command of quoted words with the given redirections. -/
def simple : Command where
  assignments := []
  words := (name :: args).map .lit
  redirections := rs.map fun r => (r.1, Word.arg r.2)

variable {name args rs}

/-- The tokens of a simple command are the command, if its first word names one. -/
theorem parse_simple (name : List Char) (args : List (List Char)) (hrs : ∀ r ∈ rs, r.1.redirects)
    (us : List (Token Word)) (is : List Item) :
    parse .empty ((name :: args).map (fun cs => .word (quoted cs)) ++ (rs.flatMap redirection ++ us)) =
        some (.command (simple name args rs) :: is) ↔
      Word.isCommandName (quoted name) ∧
        parse (simple name args rs) us = some (.command (simple name args rs) :: is) := by
  have hwords : (args.map fun cs => Token.word (quoted cs)) = (args.map quoted).map .word := by
    rw [List.map_map]
    rfl
  rw [List.map_cons, List.cons_append, parse_name rfl, hwords, parse_words (by simp),
    parse_redirections hrs]
  simp [Command.empty, simple, arg_quoted, Function.comp_def]

theorem simple_items : (simple name args rs).items = [.command (simple name args rs)] :=
  if_neg fun h => by simp [simple, Command.empty] at h

theorem map_arg_simple : ((name :: args).map (fun cs => Token.word (quoted cs)) ++
    rs.flatMap redirection).map (Token.map Word.arg) ++ [.newline] =
      Item.tokens (.command (simple name args rs)) := by
  have hwords : ((name :: args).map fun cs => Token.word (quoted cs)).map (Token.map Word.arg) =
      ((name :: args).map .lit).map .word := by
    simp [Function.comp_def, Token.map, arg_quoted]
  have hrs : (rs.flatMap redirection).map (Token.map Word.arg) =
      (rs.map (fun r => (r.1, Word.arg r.2))).flatMap fun r => [Token.op r.1, .word r.2] := by
    rw [List.map_flatMap, List.flatMap_map]
    rfl
  rw [List.map_append, hwords, hrs]
  rfl

theorem map_arg_hereDocs (docs : List (List Char)) :
    (docs.map fun body => (Token.hereDoc body : Token Word)).map (Token.map Word.arg) =
      (docs.map Item.hereDoc).flatMap Item.tokens := by
  rw [List.map_map, List.flatMap_map, List.map_eq_flatMap]
  rfl

/-- A command of quoted words, its redirections and here-documents. -/
theorem Line.command (name : List Char) (args : List (List Char)) {text : List Char}
    (docs : List (List Char)) (htext : Separates text)
    (hrs : ∀ r ∈ rs, r.1.redirects)
    (hreads : Reads text (rs.flatMap redirection ++ .newline :: docs.map .hereDoc)) :
    Line (joinQuoted (name :: args) ++ text) (Word.isCommandName (quoted name))
      (.command (simple name args rs) :: docs.map .hereDoc) := by
  refine ⟨_, hreads.joinQuoted htext _, ?_, fun us is => ?_⟩
  · rw [List.flatMap_cons, ← map_arg_simple, ← map_arg_hereDocs, ← List.append_assoc, List.map_append,
      List.append_assoc]
    rfl
  · rw [List.append_assoc, List.append_assoc, List.cons_append, List.cons_append,
      parse_simple name args hrs, parse, simple_items, Option.map_eq_some_iff,
      ← parse_hereDocs docs us]
    simp

/-- Such a command at the end of a script. -/
theorem LastLine.command (name : List Char) (args : List (List Char)) (rs : List (Op × Word))
    {text : List Char} (htext : Separates text)
    (hrs : ∀ r ∈ rs, r.1.redirects) (hfinishes : Finishes text (rs.flatMap redirection)) :
    LastLine (joinQuoted (name :: args) ++ text) (Word.isCommandName (quoted name))
      [.command (simple name args rs)] := by
  refine ⟨_, hfinishes.joinQuoted_append htext _, ?_, ?_⟩
  · rw [render, List.flatMap_singleton, ← map_arg_simple, List.dropLast_concat]
  · have h := parse_simple name args hrs [] []
    rw [List.append_nil] at h
    rw [h, parse, simple_items]
    simp

end Simple

end Shell
