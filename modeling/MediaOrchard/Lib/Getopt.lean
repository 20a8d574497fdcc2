/-
  The options and operands of a command line (POSIX utility conventions).

  A word that begins with a hyphen and is not the hyphen alone is a group of options, up
  to one that takes an argument, which is the rest of the word or the next word.  The first
  other word, or `--`, ends the options.

  * `isOption_or_hyphen`: a word with a hyphen at its front is an option or the hyphen alone;
  * `operands_operand`: a word that is no option begins the operands;
  * `operands_argument`: an option is passed over with its argument;
  * `operands_suffix`, `operands_option`: the operands are the last words, an option is none.
-/
import Mathlib.Data.List.Infix

namespace Getopt

/-- The option characters of a command. -/
structure Options where
  flags : List Char
  withArgument : List Char

/-- The word is a group of options, or ends them. -/
def isOption : List Char → Bool
  | '-' :: _ :: _ => true
  | _ => false

/-- The options of a group, without its hyphen: whether the next word is the argument of the
    last one; `none` for an unknown option. -/
def group (o : Options) : List Char → Option Bool
  | [] => some false
  | c :: cs =>
    if c ∈ o.withArgument then some cs.isEmpty
    else if c ∈ o.flags then group o cs
    else none

/-- What is behind the options, the first word being an argument if `argument`; `none` for an
    unknown option or one without its argument. -/
def scan (o : Options) (argument : Bool) : List (List Char) → Option (List (List Char))
  | [] => if argument then none else some []
  | word :: words =>
    if argument then scan o false words
    else if word = ['-', '-'] then some words
    else if isOption word then (group o word.tail).bind fun next => scan o next words
    else some (word :: words)

/-- The operands of a command line. -/
def operands (o : Options) (words : List (List Char)) : Option (List (List Char)) :=
  scan o false words

variable {o : Options} {argument : Bool} {word : List Char} {words rest : List (List Char)}

/-- A word that begins with a hyphen is a group of options or the hyphen alone. -/
theorem isOption_or_hyphen (h : word.head? = some '-') : isOption word ∨ word = ['-'] := by
  cases word with
  | nil => cases h
  | cons c cs =>
    obtain rfl := Option.some.inj h
    cases cs with
    | nil => exact Or.inr rfl
    | cons => exact Or.inl rfl

/-- No other word is one. -/
theorem isOption_eq_false (h : word.head? ≠ some '-') : isOption word = false := by
  unfold isOption
  split
  · exact absurd rfl h
  · rfl

/-- A word that is no option begins the operands. -/
theorem operands_operand (h : isOption word = false) :
    operands o (word :: words) = some (word :: words) := by
  have hne : word ≠ ['-', '-'] := by
    rintro rfl
    cases h
  rw [operands, scan, if_neg Bool.false_ne_true, if_neg hne, if_neg (by simp [h])]

/-- An option with its argument is passed over. -/
theorem operands_argument (hend : word ≠ ['-', '-']) (hopt : isOption word)
    (hgroup : group o word.tail = some true) (value : List Char) :
    operands o (word :: value :: words) = operands o words := by
  rw [operands, scan, if_neg Bool.false_ne_true, if_neg hend, if_pos hopt, hgroup,
    Option.bind_some, scan, if_pos rfl, operands]

theorem scan_suffix (h : scan o argument words = some rest) : rest <:+ words := by
  induction words generalizing argument with
  | nil =>
    rw [scan] at h
    split_ifs at h
    cases h
    exact List.suffix_refl _
  | cons word words ih =>
    rw [scan] at h
    split_ifs at h with hargument hend hopt
    · exact (ih h).trans (List.suffix_cons _ _)
    · cases h
      exact List.suffix_cons _ _
    · obtain ⟨next, -, h⟩ := Option.bind_eq_some_iff.1 h
      exact (ih h).trans (List.suffix_cons _ _)
    · cases h
      exact List.suffix_refl _

/-- **The operands are the last words.** -/
theorem operands_suffix (h : operands o words = some rest) : rest <:+ words := scan_suffix h

/-- **An option is no operand.** -/
theorem operands_option (hopt : isOption word) (h : operands o (word :: words) = some rest) :
    rest <:+ words := by
  rw [operands, scan, if_neg Bool.false_ne_true] at h
  split_ifs at h with hend
  · cases h
    exact List.suffix_refl _
  · obtain ⟨next, -, h⟩ := Option.bind_eq_some_iff.1 h
    exact scan_suffix h

end Getopt
