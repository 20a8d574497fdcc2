/-
  Greedy passes over a queue.

  The items of a queue are served one after another from a shared state.
  `serve s i` is `none` if item `i` is refused in state `s`, and else what the
  item becomes and the state it leaves.

  * `pass_rec`: the induction rule for passes that end without an exception;
  * `Lawful serve le`: serving only raises the state in `le`, and what is refused
    in a state is refused in every higher one;
  * `Lawful.pass_spec`: a pass then serves each item in the state that the items
    before it leave, or leaves it alone, refused for good;
  * `Lawful.pass_again`: a second pass changes nothing;
  * `pass_rel`: two passes from related states serve alike.
-/
import Mathlib.Logic.Relation

namespace Greedy

variable {σ ι ε : Type}

/-- One pass: the items and the state as it leaves them. -/
def pass (serve : σ → ι → Except ε (Option (ι × σ))) : List ι → σ → Except ε (List ι × σ)
  | [], s => .ok ([], s)
  | i :: is, s =>
    match serve s i with
    | .error e => .error e
    | .ok none => (pass serve is s).map fun r => (i :: r.1, r.2)
    | .ok (some (i', s')) => (pass serve is s').map fun r => (i' :: r.1, r.2)

variable {serve : σ → ι → Except ε (Option (ι × σ))} {i i' : ι} {is out : List ι} {s s' t : σ}

@[simp] theorem pass_nil (s : σ) : pass serve [] s = .ok ([], s) := rfl

theorem pass_error {e : ε} (h : serve s i = .error e) : pass serve (i :: is) s = .error e := by
  rw [pass, h]

theorem pass_refused (h : serve s i = .ok none) :
    pass serve (i :: is) s = (pass serve is s).map fun r => (i :: r.1, r.2) := by
  rw [pass, h]

theorem pass_served (h : serve s i = .ok (some (i', t))) :
    pass serve (i :: is) s = (pass serve is t).map fun r => (i' :: r.1, r.2) := by
  rw [pass, h]

/-- **Induction over a pass** that ends without an exception. -/
theorem pass_rec {P : List ι → σ → List ι → σ → Prop} (nil : ∀ s, P [] s [] s)
    (refused : ∀ {i is s out s'}, serve s i = .ok none → pass serve is s = .ok (out, s') →
      P is s out s' → P (i :: is) s (i :: out) s')
    (served : ∀ {i i' is s t out s'}, serve s i = .ok (some (i', t)) →
      pass serve is t = .ok (out, s') → P is t out s' → P (i :: is) s (i' :: out) s')
    (h : pass serve is s = .ok (out, s')) : P is s out s' := by
  induction is generalizing s out with
  | nil =>
    cases h
    exact nil _
  | cons i is ih =>
    rcases hs : serve s i with e | _ | ⟨i', t⟩
    · rw [pass_error hs] at h
      cases h
    · rw [pass_refused hs] at h
      cases hp : pass serve is s with
      | error e => rw [hp] at h; cases h
      | ok r =>
        rw [hp] at h
        cases h
        exact refused hs hp (ih hp)
    · rw [pass_served hs] at h
      cases hp : pass serve is t with
      | error e => rw [hp] at h; cases h
      | ok r =>
        rw [hp] at h
        cases h
        exact served hs hp (ih hp)

theorem pass_length (h : pass serve is s = .ok (out, s')) : out.length = is.length := by
  refine pass_rec (P := fun is _ out _ => out.length = is.length) (fun _ => rfl) ?_ ?_ h
  · intro i is s out s' _ _ ih
    rw [List.length_cons, List.length_cons, ih]
  · intro i i' is s t out s' _ _ ih
    rw [List.length_cons, List.length_cons, ih]

/-- A pass over refused items changes nothing. -/
theorem pass_idle (h : ∀ i ∈ is, serve s i = .ok none) : pass serve is s = .ok (is, s) := by
  induction is with
  | nil => rfl
  | cons i is ih =>
    rw [pass_refused (h i List.mem_cons_self), ih fun j hj => h j (List.mem_cons_of_mem _ hj)]
    rfl

/-! ## Refusals are final -/

/-- Serving raises the state, refusals are kept by higher states, and an item
    that has been served is refused. -/
structure Lawful (serve : σ → ι → Except ε (Option (ι × σ))) (le : σ → σ → Prop) : Prop where
  refl : ∀ s, le s s
  trans : ∀ {s t u}, le s t → le t u → le s u
  raise : ∀ {s i i' t}, serve s i = .ok (some (i', t)) → le s t
  refuse : ∀ {s t i}, le s t → serve s i = .ok none → serve t i = .ok none
  done : ∀ {s i i' t}, serve s i = .ok (some (i', t)) → ∀ u, serve u i' = .ok none

variable {le : σ → σ → Prop}

/-- **A pass raises the state.** -/
theorem Lawful.pass_le (hg : Lawful serve le) (h : pass serve is s = .ok (out, s')) : le s s' := by
  refine pass_rec (P := fun _ s _ s' => le s s') hg.refl ?_ ?_ h
  · intro i is s out s' _ _ ih
    exact ih
  · intro i i' is s t out s' hs _ ih
    exact hg.trans (hg.raise hs) ih

/-- A pass raises no exception if the service of no item does in a state that the
    pass can raise the first one to. -/
theorem Lawful.pass_total (hg : Lawful serve le)
    (h : ∀ i ∈ is, ∀ t, le s t → ∃ o, serve t i = .ok o) :
    ∃ out s', pass serve is s = .ok (out, s') := by
  induction is generalizing s with
  | nil => exact ⟨[], s, rfl⟩
  | cons i is ih =>
    obtain ⟨_ | ⟨i', t⟩, hs⟩ := h i List.mem_cons_self s (hg.refl s)
    · obtain ⟨out, s', hp⟩ := ih fun j hj => h j (List.mem_cons_of_mem _ hj)
      exact ⟨i :: out, s', by rw [pass_refused hs, hp]; rfl⟩
    · obtain ⟨out, s', hp⟩ := ih fun j hj u hu =>
        h j (List.mem_cons_of_mem _ hj) u (hg.trans (hg.raise hs) hu)
      exact ⟨i' :: out, s', by rw [pass_served hs, hp]; rfl⟩

/-- **What a pass does to each item**: it is served in the state that the
    items before it leave, or it is left alone and still refused at the end. -/
theorem Lawful.pass_spec (hg : Lawful serve le) (h : pass serve is s = .ok (out, s')) :
    ∀ n i i', is[n]? = some i → out[n]? = some i' →
      (∃ before mid t, pass serve (is.take n) s = .ok (before, mid) ∧
        serve mid i = .ok (some (i', t)) ∧ le s mid ∧ le t s') ∨
      (i' = i ∧ serve s' i = .ok none) := by
  refine pass_rec (P := fun is s out s' => ∀ n i i', is[n]? = some i → out[n]? = some i' →
    (∃ before mid t, pass serve (is.take n) s = .ok (before, mid) ∧
      serve mid i = .ok (some (i', t)) ∧ le s mid ∧ le t s') ∨
    (i' = i ∧ serve s' i = .ok none)) ?_ ?_ ?_ h
  · intro s n i i' hi
    cases hi
  · intro j is s out s' hs hp ih n i i' hi hi'
    cases n with
    | zero =>
      cases hi
      cases hi'
      exact Or.inr ⟨rfl, hg.refuse (hg.pass_le hp) hs⟩
    | succ n =>
      refine (ih n i i' hi hi').imp_left ?_
      rintro ⟨before, mid, t, hb, ht, h1, h2⟩
      refine ⟨j :: before, mid, t, ?_, ht, h1, h2⟩
      rw [List.take_succ_cons, pass_refused hs, hb]
      rfl
  · intro j j' is s u out s' hs hp ih n i i' hi hi'
    cases n with
    | zero =>
      cases hi
      cases hi'
      exact Or.inl ⟨[], s, u, rfl, hs, hg.refl s, hg.pass_le hp⟩
    | succ n =>
      refine (ih n i i' hi hi').imp_left ?_
      rintro ⟨before, mid, t, hb, ht, h1, h2⟩
      refine ⟨j' :: before, mid, t, ?_, ht, hg.trans (hg.raise hs) h1, h2⟩
      rw [List.take_succ_cons, pass_served hs, hb]
      rfl

/-- At the end of a pass every item is refused. -/
theorem Lawful.pass_refuses (hg : Lawful serve le) (h : pass serve is s = .ok (out, s')) :
    ∀ i ∈ out, serve s' i = .ok none := by
  intro i' hi'
  obtain ⟨n, hn⟩ := List.getElem?_of_mem hi'
  have hl : n < is.length := by
    rw [← pass_length h]
    exact (List.getElem?_eq_some_iff.1 hn).1
  rcases hg.pass_spec h n _ i' (List.getElem?_eq_getElem hl) hn with ⟨_, _, _, _, hs, _⟩ | ⟨rfl, hs⟩
  · exact hg.done hs s'
  · exact hs

/-- **A second pass changes nothing**, over all items or some of them. -/
theorem Lawful.pass_again (hg : Lawful serve le) (h : pass serve is s = .ok (out, s'))
    {some : List ι} (hsome : some ⊆ out) : pass serve some s' = .ok (some, s') :=
  pass_idle fun i hi => hg.pass_refuses h i (hsome hi)

/-! ## Related states -/

/-- Two answers of `serve`, or of a pass: the same exception, or the same items
    and related states. -/
def Alike {α : Type} (r : σ → σ → Prop) : Except ε (α × σ) → Except ε (α × σ) → Prop
  | .error e, .error e' => e = e'
  | .ok (a, s), .ok (a', s') => a = a' ∧ r s s'
  | _, _ => False

/-- Two answers of `serve` to one item. -/
def ServedAlike (r : σ → σ → Prop) (a b : Except ε (Option (ι × σ))) : Prop :=
  match a, b with
  | .error e, .error e' => e = e'
  | .ok none, .ok none => True
  | .ok (some (i, s)), .ok (some (i', s')) => i = i' ∧ r s s'
  | _, _ => False

/-- **Passes from related states serve alike**, if the service of an item does. -/
theorem pass_rel {r : σ → σ → Prop}
    (hr : ∀ s s' i, r s s' → ServedAlike r (serve s i) (serve s' i)) (is : List ι) :
    ∀ s s', r s s' → Alike r (pass serve is s) (pass serve is s') := by
  induction is with
  | nil => exact fun s s' h => ⟨rfl, h⟩
  | cons i is ih =>
    -- the heads agree, and the tails start from related states
    have htail : ∀ i' t t', r t t' → Alike r ((pass serve is t).map fun q => (i' :: q.1, q.2))
        ((pass serve is t').map fun q => (i' :: q.1, q.2)) := by
      intro i' t t' ht
      have := ih t t' ht
      rcases hp : pass serve is t with e | ⟨a, u⟩ <;>
        rcases hp' : pass serve is t' with e' | ⟨a', u'⟩ <;> rw [hp, hp'] at this
      · exact this
      · exact this
      · exact this
      · exact ⟨congrArg (i' :: ·) this.1, this.2⟩
    intro s s' h
    have hi := hr s s' i h
    rcases hs : serve s i with e | _ | ⟨j, t⟩ <;> rcases hs' : serve s' i with e' | _ | ⟨j', t'⟩ <;>
      rw [hs, hs'] at hi
    case error.error => rw [pass_error hs, pass_error hs']; exact hi
    case ok.none.ok.none => rw [pass_refused hs, pass_refused hs']; exact htail i s s' h
    case ok.some.ok.some =>
      obtain ⟨rfl, ht⟩ := hi
      rw [pass_served hs, pass_served hs']
      exact htail j t t' ht
    all_goals exact hi.elim

end Greedy
