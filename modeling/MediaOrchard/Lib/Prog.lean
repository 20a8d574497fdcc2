/-
  Programs of atomic actions on a shared store.

  A `Prog σ ε α` performs atomic actions on a store of type `σ`, each followed
  by a continuation that has seen the store just before the action, and ends
  with a value (`ret`) or an exception (`throw`).  Between two actions of one
  program anything may happen to the store.

  * `exec` runs a program alone, `stop n` its first `n` actions;
  * `Spec R G Q p P` is the rely/guarantee triple: started under `P`, while
    every change made by others satisfies `R`, each action of `p` satisfies `G`
    and the value it returns satisfies `Q`;
  * `Acts G p`: each action of `p` is in `G`, whatever others do;
  * `Before A W fin p`: as long as `A` holds of the store, `p` does not end with
    an outcome outside `fin` before performing an action in `W`;
  * `Then W T p`: after an action in `W`, the rest of `p` satisfies `T`;
  * `EndsIn A fin p`: as long as `A` holds of the store, `p` ends only in `fin`;
  * `AfterWrite T p`: after a change of the store, the rest of `p` satisfies `T`.

  Each has one rule for `bind`, so a handler is verified from the rules of the
  functions it calls.
-/
import Mathlib.Data.Nat.Notation
import Mathlib.Tactic.SplitIfs

namespace Interleave

/-- Programs of atomic actions: `act f k` replaces the store `s` by `f s` and
    continues with `k s`. -/
inductive Prog (σ ε α : Type) where
  | ret (a : α)
  | throw (e : ε)
  | act (f : σ → σ) (k : σ → Prog σ ε α)

variable {σ ε α β : Type}

namespace Prog

/-- Sequential composition; an exception skips the rest. -/
def bind : Prog σ ε α → (α → Prog σ ε β) → Prog σ ε β
  | ret a, g => g a
  | throw e, _ => throw e
  | act f k, g => act f fun s => (k s).bind g

instance : Monad (Prog σ ε) where
  pure := ret
  bind := bind

/-- Read the store. -/
def read (g : σ → β) : Prog σ ε β := act id fun s => ret (g s)

/-- One atomic action with a result. -/
def atomic (f : σ → β × σ) : Prog σ ε β := act (fun s => (f s).2) fun s => ret (f s).1

@[simp] theorem pure_eq (a : α) : (pure a : Prog σ ε α) = ret a := rfl

@[simp] theorem bind_eq (p : Prog σ ε α) (g : α → Prog σ ε β) : p >>= g = p.bind g := rfl

@[simp] theorem ret_bind (a : α) (g : α → Prog σ ε β) : (ret a : Prog σ ε α).bind g = g a := rfl

@[simp] theorem throw_bind (e : ε) (g : α → Prog σ ε β) :
    (throw e : Prog σ ε α).bind g = throw e := rfl

@[simp] theorem act_bind (f : σ → σ) (k : σ → Prog σ ε α) (g : α → Prog σ ε β) :
    (act f k).bind g = act f fun s => (k s).bind g := rfl

theorem bind_assoc {γ : Type} (p : Prog σ ε α) (g : α → Prog σ ε β) (h : β → Prog σ ε γ) :
    (p.bind g).bind h = p.bind fun a => (g a).bind h := by
  induction p with
  | ret | throw => rfl
  | act f k ih => exact congrArg (act f) (funext ih)

/-! ## Running a program alone -/

/-- Run a program with nothing in between. -/
def exec : Prog σ ε α → σ → Except ε α × σ
  | ret a, s => (.ok a, s)
  | throw e, s => (.error e, s)
  | act f k, s => (k s).exec (f s)

/-- The store when the program is stopped after `n` actions. -/
def stop : ℕ → Prog σ ε α → σ → σ
  | n + 1, act f k, s => stop n (k s) (f s)
  | _, _, s => s

@[simp] theorem exec_ret (a : α) (s : σ) : (ret a : Prog σ ε α).exec s = (.ok a, s) := rfl

@[simp] theorem exec_throw (e : ε) (s : σ) : (throw e : Prog σ ε α).exec s = (.error e, s) := rfl

@[simp] theorem exec_act (f : σ → σ) (k : σ → Prog σ ε α) (s : σ) :
    (act f k).exec s = (k s).exec (f s) := rfl

@[simp] theorem exec_read (g : σ → β) (s : σ) :
    (read g : Prog σ ε β).exec s = (.ok (g s), s) := rfl

@[simp] theorem exec_atomic (f : σ → β × σ) (s : σ) :
    (atomic f : Prog σ ε β).exec s = (.ok (f s).1, (f s).2) := rfl

@[simp] theorem stop_zero (p : Prog σ ε α) (s : σ) : p.stop 0 s = s := by
  cases p <;> rfl

@[simp] theorem stop_ret (n : ℕ) (a : α) (s : σ) : (ret a : Prog σ ε α).stop n s = s := by
  cases n <;> rfl

@[simp] theorem stop_throw (n : ℕ) (e : ε) (s : σ) : (throw e : Prog σ ε α).stop n s = s := by
  cases n <;> rfl

@[simp] theorem stop_act (n : ℕ) (f : σ → σ) (k : σ → Prog σ ε α) (s : σ) :
    (act f k).stop (n + 1) s = (k s).stop n (f s) := rfl

theorem exec_bind (p : Prog σ ε α) (g : α → Prog σ ε β) (s : σ) :
    (p.bind g).exec s = match p.exec s with
      | (.ok a, s') => (g a).exec s'
      | (.error e, s') => (.error e, s') := by
  induction p generalizing s with
  | ret | throw => rfl
  | act f k ih => exact ih s (f s)

theorem exec_bind_ok {p : Prog σ ε α} {g : α → Prog σ ε β} {s s' : σ} {a : α}
    (h : p.exec s = (.ok a, s')) : (p.bind g).exec s = (g a).exec s' := by
  rw [exec_bind, h]

theorem exec_bind_error {p : Prog σ ε α} {g : α → Prog σ ε β} {s s' : σ} {e : ε}
    (h : p.exec s = (.error e, s')) : (p.bind g).exec s = (.error e, s') := by
  rw [exec_bind, h]

/-! ## Stopping a program -/

/-- The number of actions of a program run alone. -/
def len : Prog σ ε α → σ → ℕ
  | ret _, _ => 0
  | throw _, _ => 0
  | act f k, s => len (k s) (f s) + 1

theorem stop_of_len_le {p : Prog σ ε α} {s : σ} {n : ℕ} (h : p.len s ≤ n) :
    p.stop n s = (p.exec s).2 := by
  induction p generalizing s n with
  | ret | throw => simp
  | act f k ih =>
    cases n with
    | zero => exact absurd h (Nat.not_succ_le_zero _)
    | succ n => exact ih s (Nat.le_of_succ_le_succ h)

/-- The rest of a sequence is reached once its first part has run. -/
theorem stop_bind_ok {p : Prog σ ε α} {g : α → Prog σ ε β} {s s' : σ} {a : α}
    (h : p.exec s = (.ok a, s')) (n : ℕ) : (p.bind g).stop n s =
      if n < p.len s then p.stop n s else (g a).stop (n - p.len s) s' := by
  induction p generalizing s n with
  | ret => cases h; rfl
  | throw => cases h
  | act f k ih =>
    cases n with
    | zero => rfl
    | succ n =>
      show ((k s).bind g).stop n (f s) = _
      rw [ih s h n]
      simp only [len, stop_act, Nat.add_lt_add_iff_right, Nat.add_sub_add_right]

theorem stop_bind_error {p : Prog σ ε α} (g : α → Prog σ ε β) {s s' : σ} {e : ε}
    (h : p.exec s = (.error e, s')) (n : ℕ) : (p.bind g).stop n s = p.stop n s := by
  induction p generalizing s n with
  | ret => cases h
  | throw => cases n <;> rfl
  | act f k ih =>
    cases n with
    | zero => rfl
    | succ n => exact ih s h n

theorem stop_bind_ret (p : Prog σ ε α) (f : α → β) (n : ℕ) (s : σ) :
    (p.bind fun a => ret (f a)).stop n s = p.stop n s := by
  induction p generalizing s n with
  | ret | throw => simp
  | act g k ih =>
    cases n with
    | zero => rfl
    | succ n => exact ih s n (g s)

/-- The program only reads. -/
def Silent (p : Prog σ ε α) : Prop := ∀ n s, p.stop n s = s

theorem Silent.read (g : σ → β) : Silent (read g : Prog σ ε β) := by
  intro n s
  cases n <;> simp [Prog.read]

theorem Silent.bind {p : Prog σ ε α} {g : α → Prog σ ε β} (hp : Silent p)
    (hg : ∀ a, Silent (g a)) : Silent (p.bind g) := by
  intro n s
  have hs : (p.exec s).2 = s := (stop_of_len_le (Nat.le_refl _)).symm.trans (hp _ s)
  obtain ⟨o, he⟩ : ∃ o, p.exec s = (o, s) := ⟨_, Prod.ext rfl hs⟩
  cases o with
  | error e => rw [stop_bind_error g he]; exact hp n s
  | ok a =>
    rw [stop_bind_ok he]
    split_ifs
    · exact hp n s
    · exact hg a _ s

/-! ## Rely and guarantee -/

/-- `P` survives every change in `R`. -/
def Stable (R : σ → σ → Prop) (P : σ → Prop) : Prop := ∀ s s', P s → R s s' → P s'

theorem Stable.const {R : σ → σ → Prop} (φ : Prop) : Stable R fun _ => φ := fun _ _ h _ => h

theorem Stable.and {R : σ → σ → Prop} {P P' : σ → Prop} (h : Stable R P) (h' : Stable R P') :
    Stable R fun s => P s ∧ P' s :=
  fun s s' hp hR => ⟨h s s' hp.1 hR, h' s s' hp.2 hR⟩

/-- The rely/guarantee triple. -/
def Spec (R G : σ → σ → Prop) (Q : α → σ → Prop) : Prog σ ε α → (σ → Prop) → Prop
  | ret a, P => ∀ s, P s → Q a s
  | throw _, _ => True
  | act f k, P => ∀ s, P s → G s (f s) ∧ ∃ P', Stable R P' ∧ P' (f s) ∧ Spec R G Q (k s) P'

variable {R G : σ → σ → Prop} {P P' : σ → Prop} {Q : α → σ → Prop} {Q' : β → σ → Prop}

theorem Spec.pre {p : Prog σ ε α} (h : Spec R G Q p P) (hP : ∀ s, P' s → P s) :
    Spec R G Q p P' := by
  cases p with
  | ret a => exact fun s hs => h s (hP s hs)
  | throw => trivial
  | act f k => exact fun s hs => h s (hP s hs)

theorem Spec.post {p : Prog σ ε α} {Q₂ : α → σ → Prop} (h : Spec R G Q p P)
    (hQ : ∀ a s, Q a s → Q₂ a s) : Spec R G Q₂ p P := by
  induction p generalizing P with
  | ret a => exact fun s hs => hQ a s (h s hs)
  | throw => trivial
  | act f k ih =>
    intro s hs
    obtain ⟨h1, P', h2, h3, h4⟩ := h s hs
    exact ⟨h1, P', h2, h3, ih s h4⟩

/-- A pure consequence of the precondition may be assumed. -/
theorem Spec.assume {p : Prog σ ε α} {φ : Prop} (hφ : ∀ s, P s → φ)
    (h : φ → Spec R G Q p P) : Spec R G Q p P := by
  cases p with
  | ret a => exact fun s hs => h (hφ s hs) s hs
  | throw => trivial
  | act f k => exact fun s hs => h (hφ s hs) s hs

/-- **The rule for sequential composition.** -/
theorem Spec.bind {p : Prog σ ε α} {g : α → Prog σ ε β} (hp : Spec R G Q p P)
    (hg : ∀ a, Spec R G Q' (g a) (Q a)) : Spec R G Q' (p.bind g) P := by
  induction p generalizing P with
  | ret a => exact (hg a).pre hp
  | throw => trivial
  | act f k ih =>
    intro s hs
    obtain ⟨h1, P', h2, h3, h4⟩ := hp s hs
    exact ⟨h1, P', h2, h3, ih s h4⟩

/-- A read must leave a stable assertion about what it saw. -/
theorem Spec.read {g : σ → β} (hG : ∀ s, P s → G s s)
    (h : ∀ s, P s → ∃ P', Stable R P' ∧ P' s ∧ ∀ s', P' s' → Q' (g s) s') :
    Spec (ε := ε) R G Q' (read g) P := fun s hs => ⟨hG s hs, h s hs⟩

theorem Spec.atomic {f : σ → β × σ} (hG : ∀ s, P s → G s (f s).2)
    (h : ∀ s, P s → ∃ P', Stable R P' ∧ P' (f s).2 ∧ ∀ s', P' s' → Q' (f s).1 s') :
    Spec (ε := ε) R G Q' (atomic f) P := fun s hs => ⟨hG s hs, h s hs⟩

/-- Run alone, a program keeps what its guarantee keeps. -/
theorem Spec.exec_inv {p : Prog σ ε α} (h : Spec R G Q p P) {J : σ → Prop}
    (hJ : ∀ s s', J s → G s s' → J s') {s : σ} (hs : P s) (hj : J s) : J (p.exec s).2 := by
  induction p generalizing P s with
  | ret | throw => exact hj
  | act f k ih =>
    obtain ⟨h1, P', -, h3, h4⟩ := h s hs
    exact ih s h4 h3 (hJ _ _ hj h1)

/-- Every action of the program is in `G`, whatever others do to the store. -/
abbrev Acts (G : σ → σ → Prop) (p : Prog σ ε α) : Prop :=
  Spec (fun _ _ => True) G (fun _ _ => True) p fun _ => True

theorem Acts.of_forall (h : ∀ s s', G s s') (p : Prog σ ε α) : Acts G p := by
  induction p with
  | ret => exact fun _ _ => trivial
  | throw => trivial
  | act f k ih => exact fun s _ => ⟨h _ _, fun _ => True, Stable.const True, trivial, ih s⟩

theorem Acts.read {g : σ → β} (h : ∀ s, G s s) : Acts G (read g : Prog σ ε β) :=
  Spec.read (fun s _ => h s) fun _ _ => ⟨fun _ => True, Stable.const True, trivial, fun _ _ => trivial⟩

theorem Acts.atomic {f : σ → β × σ} (h : ∀ s, G s (f s).2) : Acts G (atomic f : Prog σ ε β) :=
  Spec.atomic (fun s _ => h s) fun _ _ =>
    ⟨fun _ => True, Stable.const True, trivial, fun _ _ => trivial⟩

theorem Acts.bind {p : Prog σ ε α} {g : α → Prog σ ε β} (hp : Acts G p)
    (hg : ∀ a, Acts G (g a)) : Acts G (p.bind g) := Spec.bind hp hg

/-- A stronger rely and a weaker guarantee. -/
theorem Spec.weaken {R' G' : σ → σ → Prop} {p : Prog σ ε α} (h : Spec R G Q p P)
    (hR : ∀ s s', R' s s' → R s s') (hG : ∀ s s', G s s' → G' s s') : Spec R' G' Q p P := by
  induction p generalizing P with
  | ret | throw => exact h
  | act f k ih =>
    intro s hs
    obtain ⟨h1, P', h2, h3, h4⟩ := h s hs
    exact ⟨hG _ _ h1, P', fun t t' ht htR => h2 t t' ht (hR t t' htR), h3, ih s h4⟩

/-- An assertion that everyone keeps holds throughout. -/
theorem Spec.frame {F : σ → Prop} {p : Prog σ ε α} (h : Spec R G Q p P) (hR : Stable R F)
    (hG : ∀ s s', G s s' → F s → F s') :
    Spec R G (fun a s => Q a s ∧ F s) p fun s => P s ∧ F s := by
  induction p generalizing P with
  | ret a => exact fun s hs => ⟨h s hs.1, hs.2⟩
  | throw => trivial
  | act f k ih =>
    intro s hs
    obtain ⟨h1, P', h2, h3, h4⟩ := h s hs.1
    exact ⟨h1, fun t => P' t ∧ F t, h2.and hR, ⟨h3, hG _ _ h1 hs.2⟩, ih s h4⟩

/-- What a program does whatever others do, it does under any rely. -/
theorem Spec.both {G' : σ → σ → Prop} {p : Prog σ ε α} (h : Spec R G Q p P) (h' : Acts G' p) :
    Spec R (fun s s' => G s s' ∧ G' s s') Q p P := by
  induction p generalizing P with
  | ret | throw => exact h
  | act f k ih =>
    intro s hs
    obtain ⟨h1, P', h2, h3, h4⟩ := h s hs
    obtain ⟨h1', P₁, h2', h3', h4'⟩ := h' s trivial
    -- the assertion behind the action is stable under anything, so it always holds
    exact ⟨⟨h1, h1'⟩, P', h2, h3, ih s h4 (h4'.pre fun t _ => h2' _ t h3' trivial)⟩

/-! ## What must happen before a program ends -/

/-- While `A` holds, `p` does not end outside `fin` before an action in `W`. -/
def Before (A : σ → Prop) (W : σ → σ → Prop) (fin : Except ε α → Prop) : Prog σ ε α → Prop
  | ret a => fin (.ok a)
  | throw e => fin (.error e)
  | act f k => ∀ s, A s → W s (f s) ∨ Before A W fin (k s)

variable {A : σ → Prop} {W : σ → σ → Prop}

theorem Before.imp {fin fin' : Except ε α → Prop} {p : Prog σ ε α} (h : Before A W fin p)
    (hf : ∀ o, fin o → fin' o) : Before A W fin' p := by
  induction p with
  | ret | throw => exact hf _ h
  | act f k ih => exact fun s hs => (h s hs).imp id (ih s)

theorem Before.of_forall {fin : Except ε α → Prop} (h : ∀ o, fin o) (p : Prog σ ε α) :
    Before A W fin p := by
  induction p with
  | ret | throw => exact h _
  | act f k ih => exact fun s _ => Or.inr (ih s)

/-- **The rule for sequential composition.** -/
theorem Before.bind {fin : Except ε β → Prop} {p : Prog σ ε α} {g : α → Prog σ ε β}
    (h : Before A W (fun o => match o with
      | .ok a => Before A W fin (g a)
      | .error e => fin (.error e)) p) : Before A W fin (p.bind g) := by
  induction p with
  | ret | throw => exact h
  | act f k ih => exact fun s hs => (h s hs).imp id (ih s)

/-- What comes first may be ignored. -/
theorem Before.seq {fin : Except ε β → Prop} (p : Prog σ ε α) {g : α → Prog σ ε β}
    (he : ∀ e, fin (.error e)) (hg : ∀ a, Before A W fin (g a)) : Before A W fin (p.bind g) := by
  refine Before.bind (Before.of_forall (fun o => ?_) p)
  cases o with
  | ok a => exact hg a
  | error e => exact he e

theorem Before.read {fin : Except ε β → Prop} {g : σ → β}
    (h : ∀ s, A s → W s s ∨ fin (.ok (g s))) : Before A W fin (read g) := h

theorem Before.atomic {fin : Except ε β → Prop} {f : σ → β × σ}
    (h : ∀ s, A s → W s (f s).2 ∨ fin (.ok (f s).1)) : Before A W fin (atomic f) := h

/-! ## What a program does next -/

/-- After an action of `p` in `W`, the rest of `p` satisfies `T`. -/
def Then (W : σ → σ → Prop) (T : Prog σ ε α → Prop) : Prog σ ε α → Prop
  | ret _ => True
  | throw _ => True
  | act f k => ∀ s, (W s (f s) → T (k s)) ∧ Then W T (k s)

theorem Then.of_never {T : Prog σ ε α → Prop} (h : ∀ s s', ¬ W s s') (p : Prog σ ε α) :
    Then W T p := by
  induction p with
  | ret | throw => trivial
  | act f k ih => exact fun s => ⟨fun hw => absurd hw (h _ _), ih s⟩

/-- **The rule for sequential composition.** -/
theorem Then.bind {T : Prog σ ε β → Prop} {p : Prog σ ε α} {g : α → Prog σ ε β}
    (hp : Then W (fun q => T (q.bind g)) p) (hg : ∀ a, Then W T (g a)) :
    Then W T (p.bind g) := by
  induction p with
  | ret a => exact hg a
  | throw => trivial
  | act f k ih => exact fun s => ⟨(hp s).1, ih s (hp s).2⟩

theorem Then.read {T : Prog σ ε β → Prop} (h : ∀ s, ¬ W s s) (g : σ → β) :
    Then W T (read g) := fun s => ⟨fun hw => absurd hw (h s), trivial⟩

theorem Then.atomic {T : Prog σ ε β → Prop} {f : σ → β × σ}
    (h : ∀ s, W s (f s).2 → T (ret (f s).1)) : Then W T (atomic f) := fun s => ⟨h s, trivial⟩

/-- `φ` holds of what is left of the program before each of its actions, whatever
    these see. -/
def Every (φ : Prog σ ε α → Prop) : Prog σ ε α → Prop
  | ret _ => True
  | throw _ => True
  | act f k => φ (act f k) ∧ ∀ s, Every φ (k s)

theorem Every.imp {φ ψ : Prog σ ε α → Prop} {p : Prog σ ε α} (h : Every φ p)
    (hφ : ∀ q, φ q → ψ q) : Every ψ p := by
  induction p with
  | ret | throw => trivial
  | act f k ih => exact ⟨hφ _ h.1, fun s => ih s (h.2 s)⟩

theorem Every.of_forall {φ : Prog σ ε α → Prop} (h : ∀ p, φ p) (p : Prog σ ε α) : Every φ p := by
  induction p with
  | ret | throw => trivial
  | act f k ih => exact ⟨h _, ih⟩

/-- **The rule for sequential composition.** -/
theorem Every.bind {φ : Prog σ ε α → Prop} {ψ : Prog σ ε β → Prop} {p : Prog σ ε α}
    {g : α → Prog σ ε β} (hp : Every φ p) (hφ : ∀ f k, φ (act f k) → ψ ((act f k).bind g))
    (hg : ∀ a, Every ψ (g a)) : Every ψ (p.bind g) := by
  induction p with
  | ret a => exact hg a
  | throw => trivial
  | act f k ih => exact ⟨hφ f k hp.1, fun s => ih s (hp.2 s)⟩

/-! ## How a program ends -/

/-- While `A` holds, whatever `p` sees, it ends only in `fin`. -/
abbrev EndsIn (A : σ → Prop) (fin : Except ε α → Prop) (p : Prog σ ε α) : Prop :=
  Before A (fun _ _ => False) fin p

theorem EndsIn.anti {A' : σ → Prop} {fin : Except ε α → Prop} {p : Prog σ ε α}
    (h : EndsIn A fin p) (hA : ∀ s, A' s → A s) : EndsIn A' fin p := by
  induction p with
  | ret | throw => exact h
  | act f k ih => exact fun s hs => (h s (hA s hs)).imp id (ih s)

theorem EndsIn.done {fin : Except ε α → Prop} {f : σ → σ} {k : σ → Prog σ ε α} {s : σ}
    (h : EndsIn A fin (act f k)) (hs : A s) : EndsIn A fin (k s) := (h s hs).resolve_left id

/-- **The rule for sequential composition.** -/
theorem EndsIn.bind {fin : Except ε β → Prop} {fin₁ : Except ε α → Prop} {p : Prog σ ε α}
    {g : α → Prog σ ε β} (hp : EndsIn A fin₁ p) (he : ∀ e, fin₁ (.error e) → fin (.error e))
    (hg : ∀ a, fin₁ (.ok a) → EndsIn A fin (g a)) : EndsIn A fin (p.bind g) := by
  refine Before.bind (hp.imp fun o ho => ?_)
  cases o with
  | ok a => exact hg a ho
  | error e => exact he e ho

/-- In the store `s` the program is bound to end in `fin`, by an assertion that
    holds and that no change in `R` invalidates. -/
def Bound (R : σ → σ → Prop) (fin : Except ε α → Prop) (p : Prog σ ε α) (s : σ) : Prop :=
  ∃ A, Stable R A ∧ A s ∧ EndsIn A fin p

theorem Bound.mono {fin : Except ε α → Prop} {p : Prog σ ε α} {s s' : σ} (h : Bound R fin p s)
    (hR : R s s') : Bound R fin p s' := by
  obtain ⟨A, hA, hs, hp⟩ := h
  exact ⟨A, hA, hA s s' hs hR, hp⟩

theorem Bound.act {fin : Except ε α → Prop} {f : σ → σ} {k : σ → Prog σ ε α} {s : σ}
    (h : Bound R fin (act f k) s) (hR : R s (f s)) : Bound R fin (k s) (f s) := by
  obtain ⟨A, hA, hs, hp⟩ := h
  exact ⟨A, hA, hA s _ hs hR, hp.done hs⟩

theorem EndsIn.bound {fin : Except ε α → Prop} {p : Prog σ ε α} (h : EndsIn (fun _ => True) fin p)
    (s : σ) : Bound R fin p s := ⟨fun _ => True, Stable.const True, trivial, h⟩

/-! ## What a program does after a write -/

/-- After an action of `p` that changes the store, what is left of `p` satisfies
    `T` in the store it finds. -/
def AfterWrite (T : Prog σ ε α → σ → Prop) : Prog σ ε α → Prop
  | ret _ => True
  | throw _ => True
  | act f k => ∀ s, (f s ≠ s → T (k s) (f s)) ∧ AfterWrite T (k s)

theorem AfterWrite.imp {T T' : Prog σ ε α → σ → Prop} {p : Prog σ ε α} (h : AfterWrite T p)
    (hT : ∀ q s, T q s → T' q s) : AfterWrite T' p := by
  induction p with
  | ret | throw => trivial
  | act f k ih => exact fun s => ⟨fun hne => hT _ _ ((h s).1 hne), ih s (h s).2⟩

/-- **The rule for sequential composition.** -/
theorem AfterWrite.bind {T : Prog σ ε β → σ → Prop} {p : Prog σ ε α} {g : α → Prog σ ε β}
    (hp : AfterWrite (fun q s => T (q.bind g) s) p) (hg : ∀ a, AfterWrite T (g a)) :
    AfterWrite T (p.bind g) := by
  induction p with
  | ret a => exact hg a
  | throw => trivial
  | act f k ih => exact fun s => ⟨(hp s).1, ih s (hp s).2⟩

theorem AfterWrite.atomic {T : Prog σ ε β → σ → Prop} {f : σ → β × σ}
    (h : ∀ s, (f s).2 ≠ s → T (ret (f s).1) (f s).2) : AfterWrite T (atomic f) :=
  fun s => ⟨h s, trivial⟩

/-- A program that always ends in `fin` still does after a write. -/
theorem AfterWrite.of_endsIn {fin : Except ε α → Prop} {p : Prog σ ε α}
    (h : EndsIn (fun _ => True) fin p) : AfterWrite (Bound R fin) p := by
  induction p with
  | ret | throw => trivial
  | act f k ih => exact fun s => ⟨fun _ => (h.done trivial).bound _, ih s (h.done trivial)⟩

/-- A program followed by one that always ends in `fin`. -/
theorem AfterWrite.seq {fin : Except ε β → Prop} {fin₁ : Except ε α → Prop} {p : Prog σ ε α}
    {g : α → Prog σ ε β} (hp : AfterWrite (Bound R fin₁) p)
    (he : ∀ e, fin₁ (.error e) → fin (.error e))
    (hg : ∀ a, fin₁ (.ok a) → EndsIn (fun _ => True) fin (g a))
    (hw : ∀ a, AfterWrite (Bound R fin) (g a)) : AfterWrite (Bound R fin) (p.bind g) := by
  refine AfterWrite.bind (hp.imp fun q s hq => ?_) hw
  obtain ⟨A, hA, hs, hq⟩ := hq
  exact ⟨A, hA, hs, hq.bind he fun a ha => (hg a ha).anti fun _ _ => trivial⟩

/-- The program only reads, whatever it sees. -/
def ReadOnly : Prog σ ε α → Prop
  | ret _ => True
  | throw _ => True
  | act f k => f = id ∧ ∀ s, ReadOnly (k s)

theorem ReadOnly.read (g : σ → β) : ReadOnly (read g : Prog σ ε β) := ⟨rfl, fun _ => trivial⟩

theorem ReadOnly.bind {p : Prog σ ε α} {g : α → Prog σ ε β} (hp : ReadOnly p)
    (hg : ∀ a, ReadOnly (g a)) : ReadOnly (p.bind g) := by
  induction p with
  | ret a => exact hg a
  | throw => trivial
  | act f k ih => exact ⟨hp.1, fun s => ih s (hp.2 s)⟩

theorem ReadOnly.afterWrite {T : Prog σ ε α → σ → Prop} {p : Prog σ ε α} (h : ReadOnly p) :
    AfterWrite T p := by
  induction p with
  | ret | throw => trivial
  | act f k ih =>
    obtain ⟨rfl, hk⟩ := h
    exact fun s => ⟨fun hne => absurd rfl hne, ih s (hk s)⟩

end Prog

end Interleave
