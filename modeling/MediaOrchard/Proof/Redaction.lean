/-
  Redaction is exactly noninterference.

  * `Agree`: two values agree everywhere except in the values stored under
    sensitive keys;
  * `Occurs k x v`: `k: x` is an entry of a mapping in `v`, at any depth;
  * `redactSecrets_eq_iff`: values are redacted alike iff they agree;
  * `redaction_noninterference`: this, and that the result holds the marker under
    every sensitive key, agrees with the value and is redacted to itself.
-/
import MediaOrchard.Shared.Redaction
import Mathlib.Data.List.Forall2

namespace MediaOrchard.Redaction

variable {κ α : Type}

/-- Induction over a value: the members of its lists, tuples and mappings come first. -/
@[elab_as_elim]
theorem Value.induct {P : Value κ α → Prop} (str : ∀ s, P (.str s)) (scalar : ∀ a, P (.scalar a))
    (list : ∀ items, (∀ v ∈ items, P v) → P (.list items))
    (tuple : ∀ items, (∀ v ∈ items, P v) → P (.tuple items))
    (dict : ∀ items, (∀ p ∈ items, P p.2) → P (.dict items)) (v : Value κ α) : P v := by
  refine @Value.rec κ α P (fun items => ∀ v ∈ items, P v) (fun items => ∀ p ∈ items, P p.2)
    (fun p => P p.2) str scalar list tuple dict ?_ ?_ ?_ ?_ ?_ v
  · intro v hv
    cases hv
  · intro v items hv ih w hw
    rcases List.mem_cons.1 hw with rfl | hw
    exacts [hv, ih w hw]
  · intro p hp
    cases hp
  · intro p items hp ih q hq
    rcases List.mem_cons.1 hq with rfl | hq
    exacts [hp, ih q hq]
  · intro k v hv
    exact hv

variable [DecidableEq κ]

theorem wellFormedAll_iff {items : List (Value κ α)} :
    wellFormedAll items ↔ ∀ v ∈ items, v.wellFormed := by
  induction items with
  | nil => simp [wellFormedAll]
  | cons v items ih => simp [wellFormedAll, ih]

theorem wellFormedItems_iff {items : List (κ × Value κ α)} :
    wellFormedItems items ↔ ∀ p ∈ items, p.2.wellFormed := by
  induction items with
  | nil => simp [wellFormedItems]
  | cons p items ih => simp [wellFormedItems, ih]

theorem Value.wellFormed_dict {items : List (κ × Value κ α)} :
    (Value.dict items).wellFormed ↔
      (items.map Prod.fst).Nodup ∧ ∀ p ∈ items, p.2.wellFormed := by
  simp [Value.wellFormed, wellFormedItems_iff]

/-! ## What the loops compute -/

section
variable (keyText : κ → String) (redactFields : List String)

/-- The entry of the redacted mapping for an entry of the value. -/
def redactItem (p : κ × Value κ α) : κ × Value κ α :=
  (p.1, if isSensitive keyText redactFields p.1 then redacted
    else redactSecrets keyText redactFields p.2)

@[simp] theorem redactAll_eq (items : List (Value κ α)) :
    redactAll keyText redactFields items = items.map (redactSecrets keyText redactFields) := by
  induction items with
  | nil => rfl
  | cons v items ih => rw [redactAll, ih, List.map_cons]

/-- With distinct keys every entry is added at the end. -/
theorem redactItems_eq {acc items : List (κ × Value κ α)}
    (h : ((acc ++ items).map Prod.fst).Nodup) : redactItems keyText redactFields acc items =
      acc ++ items.map (redactItem keyText redactFields) := by
  induction items generalizing acc with
  | nil => simp [redactItems]
  | cons p items ih =>
    obtain ⟨key, item⟩ := p
    have hnew : key ∉ acc.map Prod.fst := by
      intro hk
      rw [List.map_append, List.map_cons, List.nodup_append] at h
      exact h.2.2 key hk key List.mem_cons_self rfl
    rw [redactItems, setItem, if_neg hnew, ih]
    · simp [redactItem]
    · simpa using h

theorem redactSecrets_dict {items : List (κ × Value κ α)} (h : (Value.dict items).wellFormed) :
    redactSecrets keyText redactFields (.dict items) =
      .dict (items.map (redactItem keyText redactFields)) := by
  rw [redactSecrets, redactItems_eq]
  · rfl
  · exact (Value.wellFormed_dict.1 h).1

/-- Redaction keeps the keys, so they stay distinct. -/
theorem redactSecrets_wellFormed {v : Value κ α} (h : v.wellFormed) :
    (redactSecrets keyText redactFields v).wellFormed := by
  induction v using Value.induct with
  | str | scalar => exact h
  | list items ih | tuple items ih =>
    have hall := wellFormedAll_iff.1 h
    refine wellFormedAll_iff.2 fun w hw => ?_
    rw [redactAll_eq, List.mem_map] at hw
    obtain ⟨v, hv, rfl⟩ := hw
    exact ih v hv (hall v hv)
  | dict items ih =>
    rw [redactSecrets_dict _ _ h]
    obtain ⟨hkeys, hall⟩ := Value.wellFormed_dict.1 h
    refine Value.wellFormed_dict.2 ⟨by simpa [Function.comp_def, redactItem] using hkeys, ?_⟩
    intro q hq
    obtain ⟨p, hp, rfl⟩ := List.mem_map.1 hq
    unfold redactItem
    dsimp only
    split_ifs
    · rfl
    · exact ih p hp (hall p hp)

end

/-- A value as Python holds it: the keys of its mappings are distinct. -/
@[ext]
structure PyValue (κ α : Type) [DecidableEq κ] where
  val : Value κ α
  wellFormed : val.wellFormed

/-- `redact_secrets` of a value as Python holds it. -/
def PyValue.redact (keyText : κ → String) (redactFields : List String) (v : PyValue κ α) :
    PyValue κ α :=
  ⟨redactSecrets keyText redactFields v.val, redactSecrets_wellFormed _ _ v.wellFormed⟩

/-! ## Agreement -/

section
variable (keyText : κ → String) (redactFields : List String)

mutual

/-- The values agree, except in what they store under sensitive keys. -/
inductive Agree : Value κ α → Value κ α → Prop
  | str (s : String) : Agree (.str s) (.str s)
  | scalar (a : α) : Agree (.scalar a) (.scalar a)
  | list {xs ys} (h : List.Forall₂ Agree xs ys) : Agree (.list xs) (.list ys)
  | tuple {xs ys} (h : List.Forall₂ Agree xs ys) : Agree (.tuple xs) (.tuple ys)
  | dict {xs ys} (h : List.Forall₂ AgreeItem xs ys) : Agree (.dict xs) (.dict ys)

/-- The entries have the same key, and agree under it unless it is sensitive. -/
inductive AgreeItem : κ × Value κ α → κ × Value κ α → Prop
  | entry (k v w) (h : ¬ isSensitive keyText redactFields k → Agree v w) : AgreeItem (k, v) (k, w)

end

/-- `k: x` is an entry of a mapping in the value, at any depth. -/
inductive Occurs (k : κ) (x : Value κ α) : Value κ α → Prop
  | here {items} (h : (k, x) ∈ items) : Occurs k x (.dict items)
  | list {items v} (hv : v ∈ items) (h : Occurs k x v) : Occurs k x (.list items)
  | tuple {items v} (hv : v ∈ items) (h : Occurs k x v) : Occurs k x (.tuple items)
  | dict {items p} (hp : p ∈ items) (h : Occurs k x p.2) : Occurs k x (.dict items)

variable {keyText redactFields}

/-- Lists have the same image iff their members correspond. -/
theorem map_eq_map_iff {β γ : Type} {f : β → γ} {R : β → β → Prop} {xs ys : List β}
    (h : ∀ a ∈ xs, ∀ b ∈ ys, (f a = f b ↔ R a b)) : xs.map f = ys.map f ↔ List.Forall₂ R xs ys := by
  induction xs generalizing ys with
  | nil => cases ys <;> simp
  | cons a xs ih =>
    cases ys with
    | nil => simp
    | cons b ys =>
      rw [List.map_cons, List.map_cons, List.cons.injEq, List.forall₂_cons,
        h a List.mem_cons_self b List.mem_cons_self,
        ih fun a' ha b' hb => h a' (List.mem_cons_of_mem a ha) b' (List.mem_cons_of_mem b hb)]

theorem redactItem_eq_iff {p q : κ × Value κ α}
    (ih : redactSecrets keyText redactFields p.2 = redactSecrets keyText redactFields q.2 ↔
      Agree keyText redactFields p.2 q.2) :
    redactItem keyText redactFields p = redactItem keyText redactFields q ↔
      AgreeItem keyText redactFields p q := by
  obtain ⟨k, v⟩ := p
  obtain ⟨k', w⟩ := q
  unfold redactItem
  rw [Prod.mk.injEq]
  constructor
  · rintro ⟨rfl, h⟩
    refine .entry k v w fun hk => ih.1 ?_
    simpa [hk] using h
  · intro h
    cases h with
    | entry _ _ _ h =>
      refine ⟨rfl, ?_⟩
      dsimp only
      split_ifs with hk
      exacts [rfl, ih.2 (h hk)]

/-- **Values are redacted alike iff they agree.** -/
theorem redactSecrets_eq_iff {v w : Value κ α} (hv : v.wellFormed) (hw : w.wellFormed) :
    redactSecrets keyText redactFields v = redactSecrets keyText redactFields w ↔
      Agree keyText redactFields v w := by
  induction v using Value.induct generalizing w with
  | str s =>
    constructor
    · intro h
      cases w <;> cases h
      exact .str s
    · rintro ⟨⟩
      rfl
  | scalar a =>
    constructor
    · intro h
      cases w <;> cases h
      exact .scalar a
    · rintro ⟨⟩
      rfl
  | list xs ih =>
    cases w with
    | list ys =>
      have hmap : xs.map (redactSecrets keyText redactFields) = ys.map _ ↔
          List.Forall₂ (Agree keyText redactFields) xs ys := map_eq_map_iff fun v hx w hy =>
        ih v hx (wellFormedAll_iff.1 hv v hx) (wellFormedAll_iff.1 hw w hy)
      rw [redactSecrets, redactSecrets, Value.list.injEq, redactAll_eq, redactAll_eq, hmap]
      exact ⟨.list, fun h => by cases h; assumption⟩
    | _ => constructor <;> intro h <;> cases h
  | tuple xs ih =>
    cases w with
    | tuple ys =>
      have hmap : xs.map (redactSecrets keyText redactFields) = ys.map _ ↔
          List.Forall₂ (Agree keyText redactFields) xs ys := map_eq_map_iff fun v hx w hy =>
        ih v hx (wellFormedAll_iff.1 hv v hx) (wellFormedAll_iff.1 hw w hy)
      rw [redactSecrets, redactSecrets, Value.tuple.injEq, redactAll_eq, redactAll_eq, hmap]
      exact ⟨.tuple, fun h => by cases h; assumption⟩
    | _ => constructor <;> intro h <;> cases h
  | dict xs ih =>
    cases w with
    | dict ys =>
      have hmap : xs.map (redactItem keyText redactFields) = ys.map _ ↔
          List.Forall₂ (AgreeItem keyText redactFields) xs ys := map_eq_map_iff fun p hp q hq =>
        redactItem_eq_iff (ih p hp ((Value.wellFormed_dict.1 hv).2 p hp)
          ((Value.wellFormed_dict.1 hw).2 q hq))
      rw [redactSecrets_dict _ _ hv, redactSecrets_dict _ _ hw, Value.dict.injEq, hmap]
      exact ⟨.dict, fun h => by cases h; assumption⟩
    | _ => constructor <;> intro h <;> cases h

/-! ## What is left of a value -/

/-- The result agrees with the value: kinds, keys, order and what is stored under
    other keys stay. -/
theorem redactSecrets_agree {v : Value κ α} (hv : v.wellFormed) :
    Agree keyText redactFields v (redactSecrets keyText redactFields v) := by
  induction v using Value.induct with
  | str s => exact .str s
  | scalar a => exact .scalar a
  | list xs ih =>
    rw [redactSecrets, redactAll_eq]
    refine .list (List.forall₂_map_right_iff.2 (List.forall₂_same.2 fun v hx => ?_))
    exact ih v hx (wellFormedAll_iff.1 hv v hx)
  | tuple xs ih =>
    rw [redactSecrets, redactAll_eq]
    refine .tuple (List.forall₂_map_right_iff.2 (List.forall₂_same.2 fun v hx => ?_))
    exact ih v hx (wellFormedAll_iff.1 hv v hx)
  | dict xs ih =>
    rw [redactSecrets_dict _ _ hv]
    refine .dict (List.forall₂_map_right_iff.2 (List.forall₂_same.2 fun p hp => ?_))
    refine .entry p.1 p.2 _ fun hk => ?_
    rw [if_neg hk]
    exact ih p hp ((Value.wellFormed_dict.1 hv).2 p hp)

/-- Under a sensitive key there is only the marker, at any depth. -/
theorem redactSecrets_occurs {v x : Value κ α} {k : κ} (hv : v.wellFormed)
    (hk : isSensitive keyText redactFields k)
    (h : Occurs k x (redactSecrets keyText redactFields v)) : x = redacted := by
  induction v using Value.induct with
  | str | scalar => cases h
  | list xs ih =>
    rw [redactSecrets, redactAll_eq] at h
    cases h with
    | list hw h =>
      obtain ⟨v, hx, rfl⟩ := List.mem_map.1 hw
      exact ih v hx (wellFormedAll_iff.1 hv v hx) h
  | tuple xs ih =>
    rw [redactSecrets, redactAll_eq] at h
    cases h with
    | tuple hw h =>
      obtain ⟨v, hx, rfl⟩ := List.mem_map.1 hw
      exact ih v hx (wellFormedAll_iff.1 hv v hx) h
  | dict xs ih =>
    rw [redactSecrets_dict _ _ hv] at h
    cases h with
    | here hmem =>
      obtain ⟨p, -, hp⟩ := List.mem_map.1 hmem
      obtain ⟨rfl, rfl⟩ := Prod.mk.inj hp
      exact if_pos hk
    | dict hq h =>
      obtain ⟨p, hp, rfl⟩ := List.mem_map.1 hq
      unfold redactItem at h
      dsimp only at h
      split_ifs at h
      · cases h
      · exact ih p hp ((Value.wellFormed_dict.1 hv).2 p hp) h

end

/-- **Redaction is exactly noninterference.**  Values are redacted alike iff they
    agree except under sensitive keys; the result has the marker under every
    sensitive key, is redacted to itself, and agrees with the value. -/
theorem redaction_noninterference (keyText : κ → String) (redactFields : List String)
    (v w : PyValue κ α) :
    (v.redact keyText redactFields = w.redact keyText redactFields ↔
      Agree keyText redactFields v.val w.val) ∧
    (∀ k x, isSensitive keyText redactFields k →
      Occurs k x (v.redact keyText redactFields).val → x = redacted) ∧
    (v.redact keyText redactFields).redact keyText redactFields =
      v.redact keyText redactFields ∧
    Agree keyText redactFields v.val (v.redact keyText redactFields).val := by
  have hiff : ∀ v w : PyValue κ α, v.redact keyText redactFields = w.redact keyText redactFields ↔
      Agree keyText redactFields v.val w.val := by
    intro v w
    rw [← redactSecrets_eq_iff v.wellFormed w.wellFormed]
    exact PyValue.ext_iff
  have hagree : Agree keyText redactFields v.val (v.redact keyText redactFields).val :=
    redactSecrets_agree v.wellFormed
  refine ⟨hiff v w, fun k x hk h => redactSecrets_occurs v.wellFormed hk h, ?_, hagree⟩
  exact ((hiff v _).2 hagree).symm

example : redactSecrets (α := Unit) (fun key : String => key) defaultRedactFields
    (.list [.dict [("x_api_key", .tuple [.str "k"]), ("name", .str "mac")]]) =
    .list [.dict [("x_api_key", redacted), ("name", .str "mac")]] := rfl

end MediaOrchard.Redaction
