/-
  Shell scripts: token recognition and quoting.

  The fragment has words with quoted and unquoted characters and parameters
  `$NAME`, operators, comments and here-documents with a quoted delimiter; a script
  with another construct (a substitution, a numbered redirection, an expanded
  here-document) has no tokens here.

  * `lex script`: the tokens of a script; `step` reads one character, `close` ends
    the token in progress;
  * `Word.arg`: what a word stands for, a text or an expansion;
  * `quote s` is read back as one word that stands for `s` (`Reads.quote`,
    `arg_quoted`), whatever follows the blank or the newline behind it;
  * `Reads cs ts`: the characters `cs`, met between two tokens, are the tokens `ts`;
    `Finishes cs ts`: they are the rest of a script; both compose;
  * `lex_oneLine`: no comment of a script has a newline.
-/
import Mathlib.Data.List.Basic

namespace Shell

/-! ## Tokens -/

/-- A character of a word, or a parameter `$name`. -/
inductive Piece where
  | char (quoted : Bool) (c : Char)
  | param (quoted : Bool) (name : List Char)
  deriving DecidableEq

abbrev Word := List Piece

/-- The control and redirection operators. -/
inductive Op where
  | amp | andAnd | lparen | rparen | semi | dsemi | pipe | orOr
  | less | great | dless | dgreat | lessAnd | greatAnd | lessGreat | clobber | dlessDash
  deriving DecidableEq

namespace Op

def all : List Op :=
  [amp, andAnd, lparen, rparen, semi, dsemi, pipe, orOr,
    less, great, dless, dgreat, lessAnd, greatAnd, lessGreat, clobber, dlessDash]

def text : Op → List Char
  | amp => ['&']
  | andAnd => ['&', '&']
  | lparen => ['(']
  | rparen => [')']
  | semi => [';']
  | dsemi => [';', ';']
  | pipe => ['|']
  | orOr => ['|', '|']
  | less => ['<']
  | great => ['>']
  | dless => ['<', '<']
  | dgreat => ['>', '>']
  | lessAnd => ['<', '&']
  | greatAnd => ['>', '&']
  | lessGreat => ['<', '>']
  | clobber => ['>', '|']
  | dlessDash => ['<', '<', '-']

/-- The operator with the given text. -/
def ofText? (cs : List Char) : Option Op := all.find? fun o => o.text = cs

/-- The operator redirects the command it stands in. -/
def redirects : Op → Bool
  | less | great | dless | dgreat | lessAnd | greatAnd | lessGreat | clobber | dlessDash => true
  | _ => false

end Op

/-- A token; `ω` is what a word is. -/
inductive Token (ω : Type) where
  | word (w : ω)
  | op (o : Op)
  | newline
  | comment (text : List Char)
  | hereDoc (body : List Char)
  deriving DecidableEq

def Token.map {ω ω' : Type} (f : ω → ω') : Token ω → Token ω'
  | word w => word (f w)
  | op o => op o
  | newline => newline
  | comment text => comment text
  | hereDoc body => hereDoc body

/-- A comment has no newline. -/
def Token.OneLine {ω : Type} : Token ω → Prop
  | comment text => '\n' ∉ text
  | _ => True

/-! ## What a word stands for -/

/-- The unquoted characters that start an expansion of the word. -/
def expanding : List Char := ['*', '?', '[', '~', '{']

/-- The character of a piece that stands for itself. -/
def Piece.literal? : Piece → Option Char
  | char true c => some c
  | char false c => if c ∈ expanding then none else some c
  | param _ _ => none

/-- The text of a word without expansions, after quote removal. -/
def Word.literal? (w : Word) : Option (List Char) := w.mapM Piece.literal?

/-- What a word stands for. -/
inductive Arg where
  | lit (text : List Char)
  | expands (w : Word)
  deriving DecidableEq

def Word.arg (w : Word) : Arg :=
  match Word.literal? w with
  | some text => .lit text
  | none => .expands w

/-! ## Token recognition -/

inductive Mode where
  /-- between two tokens -/
  | blank
  | comment (text : List Char)
  | word (w : Word)
  /-- after an unquoted backslash, in a word or at the start of one -/
  | escape (w : Option Word)
  | single (w : Word)
  | double (w : Word)
  | doubleEscape (w : Word)
  | dollar (quoted : Bool) (w : Word)
  | param (quoted : Bool) (w : Word) (name : List Char)
  | op (o : Op)
  | hereDoc (line body : List Char)
  deriving DecidableEq

/-- `pending`: the delimiters of the here-documents after the next newline;
    `awaiting`: the next word is such a delimiter. -/
structure State where
  mode : Mode
  pending : List (List Char)
  awaiting : Bool
  deriving DecidableEq

/-- The state after some characters and the tokens they ended. -/
abbrev Result := Option (State × List (Token Word))

def Result.andThen (r : Result) (f : State → Result) : Result :=
  r.bind fun (s, ts) => (f s).map fun (t, us) => (t, ts ++ us)

namespace State

/-- Read on in another mode. -/
def goto (s : State) (mode : Mode) : Result := some ({ s with mode }, [])

/-- End a word, which is a delimiter after `<<`; an unquoted delimiter would have
    its here-document expanded. -/
def endWord (s : State) (w : Word) : Result :=
  if s.awaiting then
    if w.all fun | .char quoted _ => quoted | .param _ _ => false then
      (Word.literal? w).map fun d =>
        ({ mode := .blank, pending := s.pending ++ [d], awaiting := false }, [.word w])
    else none
  else some ({ s with mode := .blank }, [.word w])

def endOp (s : State) (o : Op) : Result :=
  if s.awaiting ∨ o = .dlessDash then none
  else some ({ s with mode := .blank, awaiting := o = .dless }, [.op o])

/-- Between lines: the here-documents come first. -/
def lineMode (pending : List (List Char)) : Mode :=
  if pending = [] then .blank else .hereDoc [] []

def endLine (s : State) : Result :=
  if s.awaiting then none else some ({ s with mode := lineMode s.pending }, [.newline])

/-- End a here-document if `line` is its delimiter. -/
def endHereDoc (s : State) (line body : List Char) : Result :=
  match s.pending with
  | d :: ds =>
    if line = d then some ({ s with mode := lineMode ds, pending := ds }, [.hereDoc body]) else none
  | [] => none

/-- End the token in progress. -/
def close (s : State) : Result :=
  match s.mode with
  | .blank => some (s, [])
  | .comment text => some ({ s with mode := .blank }, [.comment text])
  | .word w => s.endWord w
  | .param false w name => s.endWord (w ++ [.param false name])
  | .op o => s.endOp o
  | .hereDoc line body => s.endHereDoc line body
  | _ => none

end State

def isNameStart (c : Char) : Bool := c.isAlpha || c = '_'

def isNameChar (c : Char) : Bool := c.isAlphanum || c = '_'

/-- The character ends a word. -/
def isMeta (c : Char) : Bool := c = ' ' || c = '\t' || c = '\n' || (Op.ofText? [c]).isSome

/-- A character of the word `w`, or the first one of a word. -/
def wordMode (w : Option Word) (c : Char) : Option Mode :=
  match c with
  | '\'' => some (.single (w.getD []))
  | '"' => some (.double (w.getD []))
  | '\\' => some (.escape w)
  | '$' => some (.dollar false (w.getD []))
  | '`' => none
  | c => some (.word (w.getD [] ++ [.char false c]))

/-- A character between double quotes. -/
def doubleMode (w : Word) (c : Char) : Option Mode :=
  match c with
  | '"' => some (.word w)
  | '\\' => some (.doubleEscape w)
  | '$' => some (.dollar true w)
  | '`' => none
  | c => some (.double (w ++ [.char true c]))

namespace State

/-- A character between two tokens. -/
def between (s : State) (c : Char) : Result :=
  if c = ' ' ∨ c = '\t' then s.goto .blank
  else if c = '\n' then s.endLine
  else if c = '#' then s.goto (.comment [])
  else match Op.ofText? [c] with
    | some o => s.goto (.op o)
    | none => (wordMode none c).bind s.goto

/-- A character after the word `w`; digits before a redirection would number it. -/
def inWord (s : State) (w : Word) (c : Char) : Result :=
  if isMeta c then
    if (c = '<' ∨ c = '>') ∧ w.all (fun | .char false d => d.isDigit | _ => false) then none
    else (s.endWord w).andThen (between · c)
  else (wordMode (some w) c).bind s.goto

end State

/-- One character of a script. -/
def step (s : State) (c : Char) : Result :=
  match s.mode with
  | .blank => s.between c
  | .comment text => if c = '\n' then s.close.andThen (·.between c) else s.goto (.comment (text ++ [c]))
  | .word w => s.inWord w c
  | .escape w =>
    if c = '\n' then s.goto (w.elim .blank .word)
    else s.goto (.word (w.getD [] ++ [.char true c]))
  | .single w => if c = '\'' then s.goto (.word w) else s.goto (.single (w ++ [.char true c]))
  | .double w => (doubleMode w c).bind s.goto
  | .doubleEscape w =>
    if c = '\n' then s.goto (.double w)
    else if c ∈ ['$', '`', '"', '\\'] then s.goto (.double (w ++ [.char true c]))
    else s.goto (.double (w ++ [.char true '\\', .char true c]))
  | .dollar quoted w => if isNameStart c then s.goto (.param quoted w [c]) else none
  | .param quoted w name =>
    if isNameChar c then s.goto (.param quoted w (name ++ [c]))
    else if quoted then (doubleMode (w ++ [.param true name]) c).bind s.goto
    else s.inWord (w ++ [.param false name]) c
  | .op o =>
    match Op.ofText? (o.text ++ [c]) with
    | some o' => s.goto (.op o')
    | none => s.close.andThen (·.between c)
  | .hereDoc line body =>
    if c ≠ '\n' then s.goto (.hereDoc (line ++ [c]) body)
    else if s.pending.head? = some line then s.close
    else s.goto (.hereDoc [] (body ++ line ++ [c]))

def run : State → List Char → Result
  | s, [] => some (s, [])
  | s, c :: cs => (step s c).andThen (run · cs)

/-- The end of a script. -/
def finish (s : State) : Option (List (Token Word)) :=
  s.close.bind fun (t, ts) => if t.awaiting = false ∧ t.pending = [] then some ts else none

/-- Between two tokens, with no here-document to come. -/
def ready : State := ⟨.blank, [], false⟩

/-- The tokens of a script. -/
def lex (script : List Char) : Option (List (Token Word)) :=
  (run ready script).bind fun (s, ts) => (finish s).map (ts ++ ·)

/-! ## Composition -/

@[simp] theorem andThen_some_nil (s : State) (f : State → Result) :
    Result.andThen (some (s, [])) f = f s := by
  cases hf : f s <;> simp [Result.andThen, hf]

theorem andThen_some (s : State) (ts : List (Token Word)) (f : State → Result) :
    Result.andThen (some (s, ts)) f = (f s).map fun (t, us) => (t, ts ++ us) := rfl

theorem andThen_assoc (r : Result) (f g : State → Result) :
    (r.andThen f).andThen g = r.andThen fun s => (f s).andThen g := by
  cases r with
  | none => rfl
  | some x =>
    obtain ⟨s, ts⟩ := x
    rw [andThen_some, andThen_some]
    cases f s with
    | none => rfl
    | some y =>
      obtain ⟨t, us⟩ := y
      rw [Option.map_some, andThen_some, andThen_some]
      cases g t <;> simp

@[simp] theorem run_nil (s : State) : run s [] = some (s, []) := rfl

theorem run_cons (s : State) (c : Char) (cs : List Char) :
    run s (c :: cs) = (step s c).andThen (run · cs) := rfl

theorem run_append (s : State) (cs ds : List Char) :
    run s (cs ++ ds) = (run s cs).andThen (run · ds) := by
  induction cs generalizing s with
  | nil => simp
  | cons c cs ih =>
    rw [List.cons_append, run_cons, run_cons, andThen_assoc]
    exact congrArg _ (funext ih)

/-- Met between two tokens, the characters `cs` are the tokens `ts`. -/
def Reads (cs : List Char) (ts : List (Token Word)) : Prop := run ready cs = some (ready, ts)

instance (cs : List Char) (ts : List (Token Word)) : Decidable (Reads cs ts) :=
  inferInstanceAs (Decidable (_ = _))

theorem Reads.append {cs ds : List Char} {ts us : List (Token Word)} (h : Reads cs ts)
    (h' : Reads ds us) : Reads (cs ++ ds) (ts ++ us) := by
  unfold Reads at h h' ⊢
  rw [run_append, h, andThen_some, h', Option.map_some]

/-- The characters `cs` are the tokens `ts` at the end of a script. -/
def Finishes (cs : List Char) (ts : List (Token Word)) : Prop := lex cs = some ts

instance (cs : List Char) (ts : List (Token Word)) : Decidable (Finishes cs ts) :=
  inferInstanceAs (Decidable (_ = _))

theorem Reads.finishes {cs ds : List Char} {ts us : List (Token Word)} (h : Reads cs ts)
    (h' : Finishes ds us) : Finishes (cs ++ ds) (ts ++ us) := by
  unfold Finishes lex at h' ⊢
  rw [run_append, show run ready cs = some (ready, ts) from h, andThen_some]
  cases hr : run ready ds with
  | none => simp [hr] at h'
  | some x =>
    obtain ⟨s, vs⟩ := x
    rw [hr, Option.bind_some] at h'
    obtain ⟨ws, hws, rfl⟩ := Option.map_eq_some_iff.1 h'
    simp [hws]

/-! ## Quoting -/

/-- The characters that `quote` leaves alone. -/
def isSafe (c : Char) : Bool :=
  c.isAlphanum || c ∈ ['_', '@', '%', '+', '=', ':', ',', '.', '/', '-']

/-- `shlex.quote` -/
def quote (cs : List Char) : List Char :=
  if cs = [] then ['\'', '\'']
  else if cs.all isSafe then cs
  else '\'' :: (cs.flatMap fun c => if c = '\'' then ['\'', '"', '\'', '"', '\''] else [c]) ++ ['\'']

/-- The word that a quoted text is. -/
def quoted (cs : List Char) : Word := cs.map (.char (!cs.all isSafe))

section Safe
variable {c : Char} (hc : isSafe c)
include hc

theorem safe_not_mem {ds : List Char} (hds : ds.all (!isSafe ·)) : c ∉ ds := by
  intro h
  have hunsafe := List.all_eq_true.1 hds c h
  rw [hc] at hunsafe
  exact Bool.false_ne_true hunsafe

theorem ofText?_safe : Op.ofText? [c] = none := by
  have h : ∀ d ∈ ['&', '(', ')', ';', '|', '<', '>'], d ≠ c := fun d hd hdc =>
    safe_not_mem hc (by decide) (hdc ▸ hd)
  simpa [Op.ofText?, Op.all, Op.text] using h

theorem isMeta_safe : isMeta c = false := by
  have h : c ∉ [' ', '\t', '\n'] := safe_not_mem hc (by decide)
  simp_all [isMeta, ofText?_safe hc]

theorem wordMode_safe (w : Option Word) :
    wordMode w c = some (.word (w.getD [] ++ [.char false c])) := by
  unfold wordMode
  split
  all_goals first | rfl | exact absurd hc (by decide)

theorem between_safe (s : State) : s.between c = s.goto (.word [.char false c]) := by
  have h : c ∉ [' ', '\t', '\n', '#'] := safe_not_mem hc (by decide)
  simp_all [State.between, ofText?_safe hc, wordMode_safe hc]

theorem literal?_safe : Piece.literal? (.char false c) = some c :=
  if_neg (safe_not_mem hc (by decide))

end Safe

theorem run_safe {cs : List Char} (h : cs.all isSafe) (w : Word) (pending : List (List Char))
    (awaiting : Bool) : run ⟨.word w, pending, awaiting⟩ cs =
      some (⟨.word (w ++ cs.map (.char false)), pending, awaiting⟩, []) := by
  induction cs generalizing w with
  | nil => simp
  | cons c cs ih =>
    rw [List.all_cons, Bool.and_eq_true] at h
    have hstep : step ⟨.word w, pending, awaiting⟩ c =
        some (⟨.word (w ++ [.char false c]), pending, awaiting⟩, []) := by
      simp [step, State.inWord, isMeta_safe h.1, wordMode_safe h.1, State.goto]
    rw [run_cons, hstep, andThen_some_nil, ih h.2]
    simp

/-- A single quote in the text closes the quotes, stands in double quotes and
    opens them again. -/
theorem run_escaped (cs : List Char) (w : Word) (pending : List (List Char)) (awaiting : Bool) :
    run ⟨.single w, pending, awaiting⟩
        (cs.flatMap fun c => if c = '\'' then ['\'', '"', '\'', '"', '\''] else [c]) =
      some (⟨.single (w ++ cs.map (.char true)), pending, awaiting⟩, []) := by
  induction cs generalizing w with
  | nil => simp
  | cons c cs ih =>
    have hstep : run ⟨.single w, pending, awaiting⟩
        (if c = '\'' then ['\'', '"', '\'', '"', '\''] else [c]) =
          some (⟨.single (w ++ [.char true c]), pending, awaiting⟩, []) := by
      split_ifs with hc
      · rw [hc]
        rfl
      · simp [run_cons, step, hc, State.goto]
    rw [List.flatMap_cons, run_append, hstep, andThen_some_nil, ih]
    simp

/-- **A quoted text is one word**, wherever a token may start. -/
theorem run_quote (cs : List Char) (pending : List (List Char)) (awaiting : Bool) :
    run ⟨.blank, pending, awaiting⟩ (quote cs) =
      some (⟨.word (quoted cs), pending, awaiting⟩, []) := by
  unfold quote quoted
  split_ifs with hnil hsafe
  · rw [hnil]
    rfl
  · obtain ⟨c, cs, rfl⟩ := List.exists_cons_of_ne_nil hnil
    have hc := hsafe
    rw [List.all_cons, Bool.and_eq_true] at hc
    rw [run_cons, show step ⟨.blank, pending, awaiting⟩ c = _ from between_safe hc.1 _, State.goto,
      andThen_some_nil, run_safe hc.2, hsafe]
    rfl
  · rw [List.cons_append, run_cons,
      show step ⟨.blank, pending, awaiting⟩ '\'' = some (⟨.single [], pending, awaiting⟩, []) from rfl,
      andThen_some_nil, run_append, run_escaped, andThen_some_nil, Bool.eq_false_iff.2 hsafe]
    rfl

/-- **A quoted text stands for itself.** -/
theorem arg_quoted (cs : List Char) : Word.arg (quoted cs) = .lit cs := by
  have hpiece : ∀ c ∈ cs, Piece.literal? (.char (!cs.all isSafe) c) = some c := by
    intro c hc
    cases hsafe : cs.all isSafe with
    | false => rfl
    | true => exact literal?_safe (List.all_eq_true.1 hsafe c hc)
  have h : Word.literal? (quoted cs) = some cs := by
    unfold Word.literal? quoted
    generalize (!cs.all isSafe) = q at hpiece
    induction cs with
    | nil => rfl
    | cons c cs ih =>
      rw [List.map_cons, List.mapM_cons, hpiece c List.mem_cons_self,
        ih fun d hd => hpiece d (List.mem_cons_of_mem c hd)]
      rfl
  simp [Word.arg, h]

/-- The text starts with a blank or a newline, which ends a word before it. -/
def Separates (text : List Char) : Prop := text.head? = some ' ' ∨ text.head? = some '\n'

instance (text : List Char) : Decidable (Separates text) := inferInstanceAs (Decidable (_ ∨ _))

/-- A blank between two tokens is skipped. -/
theorem run_blank (text : List Char) : run ready (' ' :: text) = run ready text :=
  andThen_some_nil ready (run · text)

theorem run_newline (text : List Char) :
    run ready ('\n' :: text) = (run ready text).map fun (t, ts) => (t, .newline :: ts) := rfl

theorem run_quote_separated {text : List Char} (htext : Separates text) (cs : List Char) :
    run ready (quote cs ++ text) =
      (run ready text).map fun (t, ts) => (t, .word (quoted cs) :: ts) := by
  rw [run_append, show run ready (quote cs) = _ from run_quote cs [] false, andThen_some_nil]
  cases text with
  | nil => simp [Separates] at htext
  | cons c text =>
    rcases htext with h | h <;> cases h
    · rw [run_blank]
      rfl
    · have hword : run ⟨.word (quoted cs), [], false⟩ ('\n' :: text) =
          (run ready text).map fun (t, ts) => (t, .word (quoted cs) :: .newline :: ts) := rfl
      rw [hword, run_newline, Option.map_map]
      rfl

theorem Reads.quote {text : List Char} {ts : List (Token Word)} (htext : Separates text)
    (h : Reads text ts) (cs : List Char) : Reads (quote cs ++ text) (.word (quoted cs) :: ts) := by
  unfold Reads at h ⊢
  rw [run_quote_separated htext, h]
  rfl

theorem Finishes.quote_append {text : List Char} {ts : List (Token Word)}
    (htext : Separates text) (h : Finishes text ts) (cs : List Char) :
    Finishes (Shell.quote cs ++ text) (.word (quoted cs) :: ts) := by
  unfold Finishes lex at h ⊢
  rw [run_quote_separated htext]
  cases hrun : run ready text with
  | none => simp [hrun] at h
  | some x =>
    obtain ⟨s, us⟩ := x
    rw [hrun, Option.bind_some] at h
    obtain ⟨vs, hvs, rfl⟩ := Option.map_eq_some_iff.1 h
    simp [hvs]

theorem Finishes.quote (cs : List Char) : Finishes (quote cs) [.word (quoted cs)] := by
  unfold Finishes lex ready
  rw [run_quote]
  rfl

/-- Quoted texts with blanks between them. -/
def joinQuoted (texts : List (List Char)) : List Char := [' '].intercalate (texts.map quote)

@[simp] theorem joinQuoted_singleton (cs : List Char) : joinQuoted [cs] = quote cs := by
  simp [joinQuoted]

theorem joinQuoted_cons_cons (cs ds : List Char) (texts : List (List Char)) :
    joinQuoted (cs :: ds :: texts) = quote cs ++ ' ' :: joinQuoted (ds :: texts) := by
  simp [joinQuoted, List.intercalate]

theorem Reads.blank {text : List Char} {ts : List (Token Word)} (h : Reads text ts) :
    Reads (' ' :: text) ts := (run_blank text).trans h

theorem Finishes.blank {text : List Char} {ts : List (Token Word)} (h : Finishes text ts) :
    Finishes (' ' :: text) ts := by
  unfold Finishes lex at h ⊢
  rwa [run_blank]

/-- **Joined quoted texts are one word each.** -/
theorem Reads.joinQuoted {text : List Char} {ts : List (Token Word)} (htext : Separates text)
    (h : Reads text ts) (texts : List (List Char)) :
    Reads (joinQuoted texts ++ text) (texts.map (fun cs => .word (quoted cs)) ++ ts) := by
  induction texts with
  | nil => exact h
  | cons cs texts ih =>
    cases texts with
    | nil => simpa [Shell.joinQuoted] using Reads.quote htext h cs
    | cons ds texts =>
      rw [joinQuoted_cons_cons, List.append_assoc]
      exact Reads.quote (Or.inl rfl) ih.blank cs

theorem Finishes.joinQuoted_append {text : List Char} {ts : List (Token Word)}
    (htext : Separates text) (h : Finishes text ts) (texts : List (List Char)) :
    Finishes (Shell.joinQuoted texts ++ text) (texts.map (fun cs => .word (quoted cs)) ++ ts) := by
  induction texts with
  | nil => exact h
  | cons cs texts ih =>
    cases texts with
    | nil => simpa [Shell.joinQuoted] using Finishes.quote_append htext h cs
    | cons ds texts =>
      rw [joinQuoted_cons_cons, List.append_assoc]
      exact Finishes.quote_append (Or.inl rfl) ih.blank cs

theorem Finishes.joinQuoted (texts : List (List Char)) :
    Finishes (joinQuoted texts) (texts.map fun cs => .word (quoted cs)) := by
  induction texts with
  | nil => decide
  | cons cs texts ih =>
    cases texts with
    | nil => simpa [Shell.joinQuoted] using Finishes.quote cs
    | cons ds texts =>
      rw [joinQuoted_cons_cons]
      exact Finishes.quote_append (Or.inl rfl) ih.blank cs

/-! ## Comments -/

/-- A comment in one line is one token. -/
theorem Reads.comment {text : List Char} (h : '\n' ∉ text) :
    Reads ('#' :: text ++ ['\n']) [.comment text, .newline] := by
  have hrun : ∀ cs t : List Char, '\n' ∉ cs →
      run ⟨.comment t, [], false⟩ cs = some (⟨.comment (t ++ cs), [], false⟩, []) := by
    intro cs
    induction cs with
    | nil => simp
    | cons c cs ih =>
      intro t hcs
      rw [List.mem_cons, not_or] at hcs
      have hstep : step ⟨.comment t, [], false⟩ c = some (⟨.comment (t ++ [c]), [], false⟩, []) :=
        if_neg (Ne.symm hcs.1)
      rw [run_cons, hstep, andThen_some_nil, ih _ hcs.2]
      simp
  unfold Reads
  rw [List.cons_append, run_cons,
    show step ready '#' = some (⟨.comment [], [], false⟩, []) from rfl, andThen_some_nil, run_append,
    hrun text [] h, andThen_some_nil]
  rfl

/-- A comment in progress has no newline. -/
def Mode.OneLine : Mode → Prop
  | comment text => '\n' ∉ text
  | _ => True

/-- Nor has a comment that is ended. -/
structure Result.OneLine (r : Result) : Prop where
  of_eq : ∀ t ts, r = some (t, ts) → t.mode.OneLine ∧ ∀ x ∈ ts, x.OneLine

theorem Result.OneLine.none : Result.OneLine none := by
  refine ⟨?_⟩
  rintro _ _ ⟨⟩

theorem Result.OneLine.some {t : State} {ts : List (Token Word)} (ht : t.mode.OneLine)
    (hts : ∀ x ∈ ts, x.OneLine) : Result.OneLine (some (t, ts)) := by
  refine ⟨?_⟩
  rintro _ _ ⟨⟩
  exact ⟨ht, hts⟩

theorem Result.OneLine.andThen {r : Result} {f : State → Result} (hr : r.OneLine)
    (hf : ∀ s, s.mode.OneLine → (f s).OneLine) : (r.andThen f).OneLine := by
  cases r with
  | none => exact .none
  | some x =>
    obtain ⟨s, ts⟩ := x
    obtain ⟨hs, hts⟩ := hr.of_eq s ts rfl
    rw [andThen_some]
    cases hfs : f s with
    | none => exact .none
    | some y =>
      obtain ⟨t, us⟩ := y
      obtain ⟨ht, hus⟩ := (hf s hs).of_eq t us hfs
      exact .some ht fun x hx => (List.mem_append.1 hx).elim (hts x) (hus x)

theorem State.goto_oneLine (s : State) {mode : Mode} (h : mode.OneLine) : (s.goto mode).OneLine :=
  .some h (by simp)

theorem bind_goto_oneLine {mode? : Option Mode} (h : ∀ mode ∈ mode?, mode.OneLine) (s : State) :
    Result.OneLine (mode?.bind s.goto) := by
  cases mode? with
  | none => exact .none
  | some mode => exact s.goto_oneLine (h mode rfl)

theorem wordMode_oneLine {w : Option Word} {c : Char} : ∀ mode ∈ wordMode w c, mode.OneLine := by
  intro mode h
  rw [Option.mem_def] at h
  unfold wordMode at h
  split at h
  all_goals cases h
  all_goals trivial

theorem doubleMode_oneLine {w : Word} {c : Char} : ∀ mode ∈ doubleMode w c, mode.OneLine := by
  intro mode h
  rw [Option.mem_def] at h
  unfold doubleMode at h
  split at h
  all_goals cases h
  all_goals trivial

namespace State

theorem endWord_oneLine (s : State) (w : Word) : (s.endWord w).OneLine := by
  unfold endWord
  split_ifs
  · cases Word.literal? w with
    | none => exact .none
    | some d => exact .some trivial (by simp [Token.OneLine])
  · exact .none
  · exact .some trivial (by simp [Token.OneLine])

theorem endOp_oneLine (s : State) (o : Op) : (s.endOp o).OneLine := by
  unfold endOp
  split_ifs
  · exact .none
  · exact .some trivial (by simp [Token.OneLine])

theorem lineMode_oneLine (pending : List (List Char)) : (lineMode pending).OneLine := by
  unfold lineMode
  split_ifs <;> trivial

theorem endLine_oneLine (s : State) : s.endLine.OneLine := by
  unfold endLine
  split_ifs
  · exact .none
  · exact .some (lineMode_oneLine _) (by simp [Token.OneLine])

theorem endHereDoc_oneLine (s : State) (line body : List Char) : (s.endHereDoc line body).OneLine := by
  unfold endHereDoc
  split
  · split_ifs
    · exact .some (lineMode_oneLine _) (by simp [Token.OneLine])
    · exact .none
  · exact .none

theorem close_oneLine {s : State} (h : s.mode.OneLine) : s.close.OneLine := by
  unfold close
  split
  next hm => exact .some h (by simp)
  next text hm =>
    rw [hm] at h
    refine .some trivial fun x hx => ?_
    rw [List.mem_singleton.1 hx]
    exact h
  next => exact s.endWord_oneLine _
  next => exact s.endWord_oneLine _
  next => exact s.endOp_oneLine _
  next => exact s.endHereDoc_oneLine _ _
  next => exact .none

theorem between_oneLine (s : State) (c : Char) : (s.between c).OneLine := by
  unfold between
  split_ifs
  · exact s.goto_oneLine trivial
  · exact s.endLine_oneLine
  · exact s.goto_oneLine List.not_mem_nil
  · split
    · exact s.goto_oneLine trivial
    · exact bind_goto_oneLine wordMode_oneLine s

theorem inWord_oneLine (s : State) (w : Word) (c : Char) : (s.inWord w c).OneLine := by
  unfold inWord
  split_ifs
  · exact .none
  · exact (s.endWord_oneLine w).andThen fun t _ => t.between_oneLine c
  · exact bind_goto_oneLine wordMode_oneLine s

end State

theorem step_oneLine {s : State} (h : s.mode.OneLine) (c : Char) : (step s c).OneLine := by
  have hclose : (s.close.andThen (·.between c)).OneLine :=
    (State.close_oneLine h).andThen fun t _ => t.between_oneLine c
  unfold step
  split
  next => exact s.between_oneLine c
  next text hm =>
    split_ifs with hc
    · exact hclose
    · rw [hm] at h
      refine s.goto_oneLine fun hmem => ?_
      rcases List.mem_append.1 hmem with hmem | hmem
      exacts [h hmem, hc (List.mem_singleton.1 hmem).symm]
  next => exact s.inWord_oneLine _ c
  next w _ =>
    split_ifs
    · cases w <;> exact s.goto_oneLine trivial
    · exact s.goto_oneLine trivial
  next => split_ifs <;> exact s.goto_oneLine trivial
  next => exact bind_goto_oneLine doubleMode_oneLine s
  next => split_ifs <;> exact s.goto_oneLine trivial
  next =>
    split_ifs
    · exact s.goto_oneLine trivial
    · exact .none
  next =>
    split_ifs
    · exact s.goto_oneLine trivial
    · exact bind_goto_oneLine doubleMode_oneLine s
    · exact s.inWord_oneLine _ c
  next =>
    split
    · exact s.goto_oneLine trivial
    · exact hclose
  next =>
    split_ifs
    · exact s.goto_oneLine trivial
    · exact State.close_oneLine h
    · exact s.goto_oneLine trivial

theorem run_oneLine {s : State} (h : s.mode.OneLine) (cs : List Char) : (run s cs).OneLine := by
  induction cs generalizing s with
  | nil => exact .some h (by simp)
  | cons c cs ih => exact (step_oneLine h c).andThen fun t ht => ih ht

/-- **No comment of a script has a newline.** -/
theorem lex_oneLine {script : List Char} {ts : List (Token Word)} (h : lex script = some ts) :
    ∀ x ∈ ts, x.OneLine := by
  unfold lex finish at h
  obtain ⟨⟨s, ts'⟩, hrun, h⟩ := Option.bind_eq_some_iff.1 h
  obtain ⟨us, hfinish, rfl⟩ := Option.map_eq_some_iff.1 h
  obtain ⟨⟨t, us'⟩, hclose, h⟩ := Option.bind_eq_some_iff.1 hfinish
  obtain ⟨hs, hts⟩ := (run_oneLine (s := ready) trivial script).of_eq s ts' hrun
  obtain ⟨-, hus⟩ := (State.close_oneLine hs).of_eq t us' hclose
  dsimp only at h
  split_ifs at h
  cases h
  exact fun x hx => (List.mem_append.1 hx).elim (hts x) (hus x)

end Shell
