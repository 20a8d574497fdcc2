/-
  Tables of rows with a primary key.

  A `Table` is a list of rows whose keys are distinct; distinctness is a field,
  so a table with two rows of one key cannot be built.  The operations are the
  ones a relational store offers for single-table statements: lookup by key
  (`get?`), `UPDATE … WHERE` (`update`, with its row count `count`) and `INSERT`
  (`insert?`, which fails on a duplicate key).

  * `get?_update`, `get?_insert`: what a lookup sees after a write;
  * `count_of_key`: a condition that fixes the key matches at most one row.
-/
import Mathlib.Data.List.Nodup
import Mathlib.Data.List.Count

namespace Keyed

/-- Rows with a primary key. -/
class HasKey (ρ : Type) (κ : outParam Type) where
  key : ρ → κ

open HasKey

variable {ρ κ : Type} [HasKey ρ κ]

/-- A list of rows with distinct keys. -/
@[ext] structure Table (ρ : Type) {κ : Type} [HasKey ρ κ] where
  rows : List ρ
  nodup : (rows.map key).Nodup

namespace Table

/-- The table without rows. -/
def empty : Table ρ := ⟨[], List.nodup_nil⟩

/-- The rows satisfying `p`, in table order. -/
def select (t : Table ρ) (p : ρ → Bool) : List ρ := t.rows.filter p

/-- The number of rows an `UPDATE … WHERE p` matches. -/
def count (t : Table ρ) (p : ρ → Bool) : ℕ := t.rows.countP p

/-- Rewrite every row by `f`, which keeps keys. -/
def update (t : Table ρ) (f : ρ → ρ) (hf : ∀ r, key (f r) = key r) : Table ρ where
  rows := t.rows.map f
  nodup := by
    rw [List.map_map, show key ∘ f = key from funext hf]
    exact t.nodup

@[simp] theorem rows_update (t : Table ρ) (f : ρ → ρ) (hf : ∀ r, key (f r) = key r) :
    (t.update f hf).rows = t.rows.map f := rfl

theorem mem_update {t : Table ρ} {f : ρ → ρ} {hf : ∀ r, key (f r) = key r} {r : ρ} :
    r ∈ (t.update f hf).rows ↔ ∃ r' ∈ t.rows, f r' = r := by simp

theorem update_of_fixed {t : Table ρ} {f : ρ → ρ} {hf : ∀ r, key (f r) = key r}
    (h : ∀ r ∈ t.rows, f r = r) : t.update f hf = t := by
  ext1
  simpa using List.map_congr_left h

theorem mem_select {t : Table ρ} {p : ρ → Bool} {r : ρ} :
    r ∈ t.select p ↔ r ∈ t.rows ∧ p r := by
  simp [select]

/-- Two rows of a table with one key are the same row. -/
theorem eq_of_key {t : Table ρ} {r r' : ρ} (h : r ∈ t.rows) (h' : r' ∈ t.rows)
    (hk : key r = key r') : r = r' :=
  List.inj_on_of_nodup_map t.nodup h h' hk

/-! ## Lookup and insertion -/

variable [DecidableEq κ]

/-- The row with key `k`. -/
def get? (t : Table ρ) (k : κ) : Option ρ := t.rows.find? fun r => key r = k

/-- Insert a row; fails if its key is taken. -/
def insert? (t : Table ρ) (r : ρ) : Option (Table ρ) :=
  if h : key r ∈ t.rows.map key then none
  else some ⟨t.rows ++ [r], by
    rw [List.map_append, List.map_singleton]
    exact List.Nodup.append t.nodup (List.nodup_singleton _) (by simpa using h)⟩

variable {t t' : Table ρ} {k : κ} {r : ρ}

theorem get?_eq_some : t.get? k = some r ↔ r ∈ t.rows ∧ key r = k := by
  constructor
  · intro h
    have hk := List.find?_some h
    exact ⟨List.mem_of_find?_eq_some h, by simpa using hk⟩
  · rintro ⟨hr, rfl⟩
    rcases hg : t.get? (key r) with _ | r'
    · have := List.find?_eq_none.1 hg r hr
      simp at this
    · have hk : key r' = key r := by simpa using List.find?_some hg
      rw [List.inj_on_of_nodup_map t.nodup (List.mem_of_find?_eq_some hg) hr hk]

theorem get?_eq_none : t.get? k = none ↔ ∀ r ∈ t.rows, key r ≠ k := by
  simp [get?, List.find?_eq_none]

theorem key_of_get? (h : t.get? k = some r) : key r = k := (get?_eq_some.1 h).2

theorem mem_of_get? (h : t.get? k = some r) : r ∈ t.rows := (get?_eq_some.1 h).1

theorem get?_of_mem (h : r ∈ t.rows) : t.get? (key r) = some r := get?_eq_some.2 ⟨h, rfl⟩

/-- **A lookup after an update sees the rewritten row.** -/
@[simp] theorem get?_update (f : ρ → ρ) (hf : ∀ r, key (f r) = key r) :
    (t.update f hf).get? k = (t.get? k).map f := by
  simp only [get?, rows_update, List.find?_map]
  congr 2
  funext r
  simp [hf r]

theorem insert?_eq_some (h : t.insert? r = some t') :
    t.get? (key r) = none ∧ t'.rows = t.rows ++ [r] := by
  unfold insert? at h
  split_ifs at h with hk
  cases h
  refine ⟨get?_eq_none.2 fun r' hr' he => hk ?_, rfl⟩
  exact List.mem_map.2 ⟨r', hr', he⟩

/-- **A lookup after an insertion.** -/
theorem get?_insert (h : t.insert? r = some t') :
    t'.get? k = if key r = k then some r else t.get? k := by
  obtain ⟨hn, hr⟩ := insert?_eq_some h
  split_ifs with hk
  · exact get?_eq_some.2 ⟨by simp [hr], hk⟩
  · simp only [get?, hr, List.find?_append]
    simp [hk]

theorem get?_insert_self (h : t.insert? r = some t') : t'.get? (key r) = some r := by
  rw [get?_insert h, if_pos rfl]

/-- A condition that fixes the key matches at most one row. -/
theorem count_of_key {p : ρ → Bool} (hp : ∀ r, p r → key r = k) :
    t.count p = if (t.get? k).any p then 1 else 0 := by
  rcases hg : t.get? k with _ | r
  · simp only [count, Option.any_none, Bool.false_eq_true, if_false, List.countP_eq_zero]
    exact fun r hr hpr => get?_eq_none.1 hg r hr (hp r hpr)
  · have hmem := mem_of_get? hg
    have heq : ∀ r' ∈ t.rows, p r' ↔ (r' = r ∧ p r) := by
      intro r' hr'
      constructor
      · intro h
        have : r' = r := eq_of_key hr' hmem ((hp r' h).trans (key_of_get? hg).symm)
        exact ⟨this, this ▸ h⟩
      · rintro ⟨rfl, h⟩; exact h
    by_cases hpr : p r
    · have hnd : t.rows.Nodup := List.Nodup.of_map _ t.nodup
      classical
      have : t.rows.countP p = t.rows.count r :=
        List.countP_congr fun r' hr' => by simp [heq r' hr', hpr]
      simp [count, this, List.count_eq_one_of_mem hnd hmem, hpr]
    · have : t.rows.countP p = 0 := List.countP_eq_zero.2 fun r' hr' => by simp [heq r' hr', hpr]
      simp [count, this, hpr]

end Table

end Keyed
