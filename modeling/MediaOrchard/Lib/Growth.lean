/-
  Tables that only grow.

  A table grows if its rows stay where they are, each related to what it was, and new
  rows come after them.

  * `Table.Grows`: the relation, with its rules for `update` and `insert?`;
  * `Grows.get?`: what a lookup finds later;
  * `Grows.keys`: the keys so far are a prefix of the keys later on;
  * `prefix_page`: reading a growing list page by page.
-/
import MediaOrchard.Lib.Table
import Mathlib.Data.List.Forall2
import Mathlib.Data.List.Infix

namespace Keyed

open HasKey

variable {ρ κ α : Type} [HasKey ρ κ]

namespace Table

/-- The rows of `t` are those at the front of `t'`, each with its key and related by `R`. -/
def Grows (R : ρ → ρ → Prop) (t t' : Table ρ) : Prop :=
  ∃ rows, List.Forall₂ (fun r r' => key r' = key r ∧ R r r') t.rows rows ∧ rows <+: t'.rows

variable {R : ρ → ρ → Prop} {t t' t'' : Table ρ}

theorem Grows.refl (hR : ∀ r, R r r) (t : Table ρ) : t.Grows R t :=
  ⟨t.rows, List.forall₂_same.2 fun r _ => ⟨rfl, hR r⟩, List.prefix_rfl⟩

theorem Grows.update {f : ρ → ρ} (hf : ∀ r, key (f r) = key r) (h : ∀ r ∈ t.rows, R r (f r)) :
    t.Grows R (t.update f hf) := by
  refine ⟨t.rows.map f, List.forall₂_map_right_iff.2 (List.forall₂_same.2 fun r hr => ?_),
    List.prefix_rfl⟩
  exact ⟨hf r, h r hr⟩

theorem Grows.insert [DecidableEq κ] {r : ρ} (hR : ∀ r, R r r) (h : t.insert? r = some t') :
    t.Grows R t' := by
  refine ⟨t.rows, List.forall₂_same.2 fun r _ => ⟨rfl, hR r⟩, ?_⟩
  rw [(insert?_eq_some h).2]
  exact List.prefix_append ..

theorem Grows.trans (hR : ∀ a b c, R a b → R b c → R a c) (h : t.Grows R t')
    (h' : t'.Grows R t'') : t.Grows R t'' := by
  obtain ⟨rows, hrows, hpre⟩ := h
  obtain ⟨rows', hrows', hpre'⟩ := h'
  -- what has become of the rows of `t` is at the front of what has become of those of `t'`
  have hmid := List.forall₂_take rows.length hrows'
  rw [← List.prefix_iff_eq_take.1 hpre] at hmid
  refine ⟨rows'.take rows.length, ?_, (List.take_prefix ..).trans hpre'⟩
  clear hpre hpre' hrows'
  generalize t.rows = l at hrows ⊢
  generalize rows'.take rows.length = rows'' at hmid ⊢
  induction hrows generalizing rows'' with
  | nil =>
    cases hmid
    exact .nil
  | cons hr _ ih =>
    cases hmid with
    | cons hr' hmid => exact .cons ⟨hr'.1.trans hr.1, hR _ _ _ hr.2 hr'.2⟩ (ih _ hmid)

/-- **A row that is found stays**, related to what it was. -/
theorem Grows.get? [DecidableEq κ] {k : κ} {r : ρ} (h : t.Grows R t') (hr : t.get? k = some r) :
    ∃ r', t'.get? k = some r' ∧ R r r' := by
  obtain ⟨rows, hrows, hpre⟩ := h
  obtain ⟨hmem, hk⟩ := get?_eq_some.1 hr
  obtain ⟨r', hmem', hkey, hrr'⟩ : ∃ r' ∈ rows, key r' = key r ∧ R r r' := by
    clear hr hpre
    generalize t.rows = l at hrows hmem
    induction hrows with
    | nil => cases hmem
    | cons hab _ ih =>
      rcases List.mem_cons.1 hmem with rfl | hmem
      · exact ⟨_, List.mem_cons_self, hab⟩
      · obtain ⟨r', hr', h⟩ := ih hmem
        exact ⟨r', List.mem_cons_of_mem _ hr', h⟩
  exact ⟨r', get?_eq_some.2 ⟨hpre.subset hmem', hkey.trans hk⟩, hrr'⟩

/-- **The keys so far are the first of the keys later on.** -/
theorem Grows.keys (h : t.Grows R t') : t.rows.map key <+: t'.rows.map key := by
  obtain ⟨rows, hrows, hpre⟩ := h
  have hkeys : List.Forall₂ (· = ·) (t.rows.map key) (rows.map key) :=
    List.forall₂_map_left_iff.2 (List.forall₂_map_right_iff.2 (hrows.imp fun _ _ h => h.1.symm))
  rw [List.forall₂_eq_eq_eq] at hkeys
  rw [hkeys]
  exact hpre.map key

end Table

/-! ## Pages of a growing list -/

/-- The page after the first `n` rows extends them, also when the list has grown since. -/
theorem prefix_page {l l' : List α} {n : ℕ} (h : l <+: l') (hn : n ≤ l.length) (k : ℕ) :
    l.take n ++ (l'.drop n).take k = l'.take (n + k) := by
  rw [List.take_add, List.prefix_iff_eq_take.1 h, List.take_take, min_eq_left hn]

end Keyed
