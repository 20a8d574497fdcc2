/-
  Text cut at separators, and decimal digits.

  * `splitOn_intercalate_splitOn`: pieces joined by the separator are cut as they
    are cut alone;
  * `partition x l`: the parts of `l` before and after the first `x`
    (`partition_append_cons`);
  * `trim p l`: `l` without the ends that satisfy `p` (`trimmed_trim`), as it is
    if it has none (`Trimmed.trim_eq`);
  * `digits n`: the decimal digits of a number, read back by `readDigits`, also
    behind leading zeros (`readDigits_pad`).
-/
import Mathlib.Data.Nat.Notation
import Mathlib.Data.List.Infix
import Mathlib.Data.List.DropRight
import Mathlib.Data.List.TakeWhile

namespace Text

variable {α : Type}

/-! ## Pieces -/

/-- **Pieces joined by the separator are cut as they are cut alone.** -/
theorem splitOn_intercalate_splitOn [BEq α] [LawfulBEq α] (x : α) {ls : List (List α)}
    (h : ls ≠ []) : ([x].intercalate ls).splitOn x = ls.flatMap (List.splitOn x) := by
  induction ls with
  | nil => exact absurd rfl h
  | cons l ls ih =>
    cases ls with
    | nil => simp
    | cons l' ls =>
      have hcut : [x].intercalate (l :: l' :: ls) = l ++ x :: [x].intercalate (l' :: ls) := by
        simp [List.intercalate]
      rw [hcut, List.splitOn_append_cons_self, ih (by simp), ← List.flatMap_cons]

/-- Joined pieces: each one but the last is followed by the separator. -/
theorem intercalate_concat (sep : List α) (ls : List (List α)) (last : List α) :
    sep.intercalate (ls ++ [last]) = ls.flatMap (· ++ sep) ++ last := by
  induction ls with
  | nil => simp
  | cons l ls ih =>
    cases ls with
    | nil => simp [List.intercalate]
    | cons l' ls =>
      have hcut : sep.intercalate (l :: l' :: ls ++ [last]) =
          l ++ sep ++ sep.intercalate (l' :: ls ++ [last]) := by
        simp [List.intercalate]
      rw [hcut, ih, List.flatMap_cons (x := l), List.append_assoc (l ++ sep)]

/-- What is in the joined list is in the separator or in a piece. -/
theorem mem_intercalate {sep : List α} {ls : List (List α)} {a : α}
    (h : a ∈ sep.intercalate ls) : a ∈ sep ∨ ∃ l ∈ ls, a ∈ l := by
  induction ls with
  | nil => cases h
  | cons l ls ih =>
    cases ls with
    | nil => exact Or.inr ⟨l, List.mem_singleton_self l, by simpa [List.intercalate] using h⟩
    | cons l' ls =>
      have hcut : sep.intercalate (l :: l' :: ls) = l ++ sep ++ sep.intercalate (l' :: ls) := by
        simp [List.intercalate]
      rw [hcut, List.mem_append, List.mem_append] at h
      rcases h with (h | h) | h
      · exact Or.inr ⟨l, List.mem_cons_self, h⟩
      · exact Or.inl h
      · exact (ih h).imp_right fun ⟨m, hm, ha⟩ => ⟨m, List.mem_cons_of_mem _ hm, ha⟩

section Piece
variable [BEq α] [LawfulBEq α] {x : α} {l p : List α}

/-- A piece of `a :: l` is empty, a piece of `l`, or one with `a` in front. -/
theorem piece_cons {a : α} (h : p ∈ (a :: l).splitOn x) :
    p = [] ∨ p ∈ l.splitOn x ∨ a ≠ x ∧ ∃ q ∈ l.splitOn x, p = a :: q := by
  rw [List.splitOn_cons_eq_if_modifyHead] at h
  split_ifs at h with ha
  · rcases List.mem_cons.1 h with rfl | h
    exacts [Or.inl rfl, Or.inr (Or.inl h)]
  · cases hl : l.splitOn x with
    | nil => exact absurd hl (List.splitOn_ne_nil x l)
    | cons q qs =>
      rw [hl] at h
      rcases List.mem_cons.1 h with rfl | h
      · exact Or.inr (Or.inr ⟨fun hx => ha (by simp [hx]), q, List.mem_cons_self, rfl⟩)
      · exact Or.inr (Or.inl (List.mem_cons_of_mem q h))

/-- No piece holds the separator. -/
theorem not_mem_piece (h : p ∈ l.splitOn x) : x ∉ p := by
  induction l generalizing p with
  | nil =>
    rw [List.splitOn_nil, List.mem_singleton] at h
    simp [h]
  | cons a l ih =>
    rcases piece_cons h with rfl | h | ⟨ha, q, hq, rfl⟩
    · exact List.not_mem_nil
    · exact ih h
    · exact fun hx => (List.mem_cons.1 hx).elim (fun he => ha he.symm) (ih hq)

/-- A piece is a part of the list. -/
theorem piece_subset (h : p ∈ l.splitOn x) : p ⊆ l := by
  induction l generalizing p with
  | nil =>
    rw [List.splitOn_nil, List.mem_singleton] at h
    simp [h]
  | cons a l ih =>
    rcases piece_cons h with rfl | h | ⟨-, q, hq, rfl⟩
    · exact List.nil_subset _
    · exact List.subset_cons_of_subset a (ih h)
    · exact List.cons_subset_cons a (ih hq)

end Piece

/-- The parts of a list before and after the first `x`, if there is one. -/
def partition [DecidableEq α] (x : α) (l : List α) : List α × Option (List α) :=
  match l.span (· ≠ x) with
  | (before, []) => (before, none)
  | (before, _ :: after) => (before, some after)

theorem partition_append_cons [DecidableEq α] {x : α} {l : List α} (h : x ∉ l) (r : List α) :
    partition x (l ++ x :: r) = (l, some r) := by
  have hl : ∀ a ∈ l, decide (a ≠ x) = true := fun a ha =>
    decide_eq_true fun hax => h (hax ▸ ha)
  unfold partition
  rw [List.span_eq_takeWhile_dropWhile, List.takeWhile_append_of_pos hl,
    List.dropWhile_append_of_pos hl]
  simp

/-- The first part does not hold the separator. -/
theorem not_mem_partition [DecidableEq α] (x : α) (l : List α) : x ∉ (partition x l).1 := by
  have hspan : (partition x l).1 = l.takeWhile (· ≠ x) := by
    unfold partition
    rw [List.span_eq_takeWhile_dropWhile]
    split <;> simp_all
  intro hx
  rw [hspan] at hx
  simpa using List.mem_takeWhile_imp hx

/-- The first part is a part of the list. -/
theorem partition_subset [DecidableEq α] (x : α) (l : List α) : (partition x l).1 ⊆ l := by
  have hspan : (partition x l).1 = l.takeWhile (· ≠ x) := by
    unfold partition
    rw [List.span_eq_takeWhile_dropWhile]
    split <;> simp_all
  rw [hspan]
  exact (List.takeWhile_prefix _).subset

/-! ## Trimming -/

section Trim
variable {p : α → Bool} {l : List α}

/-- The list without the elements that satisfy `p` at its ends. -/
def trim (p : α → Bool) (l : List α) : List α := (l.dropWhile p).rdropWhile p

/-- The ends of the list do not satisfy `p`. -/
structure Trimmed (p : α → Bool) (l : List α) : Prop where
  head : ∀ h : l ≠ [], ¬ p (l.head h)
  last : ∀ h : l ≠ [], ¬ p (l.getLast h)

theorem Trimmed.trim_eq (h : Trimmed p l) : trim p l = l := by
  have hdrop : l.dropWhile p = l := by
    cases l with
    | nil => rfl
    | cons a l => exact List.dropWhile_cons_of_neg (h.head (List.cons_ne_nil a l))
  rw [trim, hdrop]
  exact List.rdropWhile_eq_self_iff.2 h.last

/-- **The ends of a trimmed list do not satisfy the predicate.** -/
theorem trimmed_trim (p : α → Bool) (l : List α) : Trimmed p (trim p l) where
  last h := List.rdropWhile_last_not p _ h
  head h := by
    have hne : l.dropWhile p ≠ [] := fun hnil => h (by rw [trim, hnil]; rfl)
    have hhead : (trim p l).head h = (l.dropWhile p).head hne :=
      List.IsPrefix.head (List.rdropWhile_prefix p _) h
    rw [hhead]
    exact Bool.eq_false_iff.1 (List.head_dropWhile_not p hne)

theorem trim_subset (p : α → Bool) (l : List α) : trim p l ⊆ l :=
  fun _ h => (List.dropWhile_suffix p).subset ((List.rdropWhile_prefix p _).subset h)

end Trim

/-! ## Decimal digits -/

/-- The decimal digits of a number. -/
def digits (n : ℕ) : List Char := (toString n).toList

/-- The number with the given decimal digits. -/
def readDigits (cs : List Char) : Option ℕ :=
  if !cs.isEmpty && cs.all Char.isDigit then some (Nat.ofDigitChars 10 cs 0) else none

theorem digits_eq (n : ℕ) : digits n = Nat.toDigits 10 n := Nat.toList_repr

theorem digits_ne_nil (n : ℕ) : digits n ≠ [] := by
  rw [digits_eq]
  exact Nat.toDigits_ne_nil

theorem isDigit_of_mem_digits {n : ℕ} {c : Char} (h : c ∈ digits n) : c.isDigit := by
  rw [digits_eq] at h
  exact Nat.isDigit_of_mem_toDigits (by decide) (by decide) h

/-- **Digits behind leading zeros are read back.** -/
theorem readDigits_pad (k n : ℕ) : readDigits (List.replicate k '0' ++ digits n) = some n := by
  have hdigits : (List.replicate k '0' ++ digits n).all Char.isDigit := by
    rw [List.all_eq_true]
    intro c hc
    rcases List.mem_append.1 hc with hc | hc
    · rw [List.eq_of_mem_replicate hc]
      decide
    · exact isDigit_of_mem_digits hc
  rw [readDigits, if_pos (by simp [hdigits, digits_ne_nil]), Nat.ofDigitChars_append,
    Nat.ofDigitChars_replicate_zero, digits_eq, Nat.mul_zero, Nat.ofDigitChars_ten_toDigits]

theorem readDigits_digits (n : ℕ) : readDigits (digits n) = some n := readDigits_pad 0 n

end Text
