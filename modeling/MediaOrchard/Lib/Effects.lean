/-
  Programs of operations with answers.

  An `Eff Op Ans ε α` performs operations of `Op`, continues with the answers it
  is given, and ends with a value or an exception.  What an operation may answer
  and do to a store is a relation (`Sem`), so that one program has many runs.

  * `Uses φ p`: every operation that `p` may perform, whatever the answers,
    satisfies `φ`; this needs no semantics;
  * `Until early mark p`: every operation of `p` satisfies `early` until one that
    satisfies `mark` is performed;
  * `wp sem Φ Q p`: the weakest precondition under which every operation of `p`
    is performed in a store that satisfies `Φ`, and every end satisfies `Q`;
  * `Reaches sem p s cs q t`: the calls `cs`, latest first, lead from `p` in the
    store `s` to `q` in the store `t`, `wp.reaches` says what holds of them;
  * `Ends sem p s cs o t`: the calls `cs`, first one first, lead from `p` in the store
    `s` to the end `o` in the store `t`; `Ends.bind`, `Ends.keeps`, `Ends.uses`, `exists_ends`
    and `Reaches.ends`;
  * `Ends.each`: a complete run of one program after the other;
  * `Ends.rename`: a complete run of a program that is written in other operations;
  * `Performs p os`: the program performs the operations `os`, unless it raises
    before; `Performs.ends` says it of its complete runs;
  * `play exec p s`: the run that an interpreter of the operations makes; `ends_play`;
  * `Trail p cs q`: the calls `cs` lead from `p` to `q` while others use the store
    as well; `Uses.trail` and `Until.trail` say what holds of them.
-/
import Mathlib.Data.Nat.Notation
import Mathlib.Data.List.Basic

namespace Effects

/-- Programs of operations; `Ans o` is what `o` may answer. -/
inductive Eff (Op : Type) (Ans : Op → Type) (ε α : Type) where
  | ret (a : α)
  | throw (e : ε)
  | op (o : Op) (k : Ans o → Eff Op Ans ε α)

variable {Op : Type} {Ans : Op → Type} {ε α β σ : Type}

namespace Eff

/-- Sequential composition; an exception skips the rest. -/
def bind : Eff Op Ans ε α → (α → Eff Op Ans ε β) → Eff Op Ans ε β
  | ret a, g => g a
  | throw e, _ => throw e
  | op o k, g => op o fun r => (k r).bind g

instance : Monad (Eff Op Ans ε) where
  pure := ret
  bind := bind

/-- Raise the error of an `Except` computation. -/
def liftExcept : Except ε α → Eff Op Ans ε α
  | .ok a => ret a
  | .error e => throw e

@[simp] theorem pure_eq (a : α) : (pure a : Eff Op Ans ε α) = ret a := rfl

@[simp] theorem bind_eq (p : Eff Op Ans ε α) (g : α → Eff Op Ans ε β) : p >>= g = p.bind g := rfl

@[simp] theorem ret_bind (a : α) (g : α → Eff Op Ans ε β) :
    (ret a : Eff Op Ans ε α).bind g = g a := rfl

@[simp] theorem throw_bind (e : ε) (g : α → Eff Op Ans ε β) :
    (throw e : Eff Op Ans ε α).bind g = throw e := rfl

@[simp] theorem op_bind (o : Op) (k : Ans o → Eff Op Ans ε α) (g : α → Eff Op Ans ε β) :
    (op o k).bind g = op o fun r => (k r).bind g := rfl

theorem bind_assoc {γ : Type} (p : Eff Op Ans ε α) (f : α → Eff Op Ans ε β)
    (g : β → Eff Op Ans ε γ) : (p.bind f).bind g = p.bind fun a => (f a).bind g := by
  induction p with
  | ret | throw => rfl
  | op o k ih => exact congrArg (op o) (funext ih)

/-! ## The operations of a program -/

/-- Every operation the program may perform satisfies `φ`. -/
def Uses (φ : Op → Prop) : Eff Op Ans ε α → Prop
  | ret _ => True
  | throw _ => True
  | op o k => φ o ∧ ∀ r, Uses φ (k r)

variable {φ : Op → Prop}

theorem Uses.imp {ψ : Op → Prop} {p : Eff Op Ans ε α} (h : Uses φ p) (hφ : ∀ o, φ o → ψ o) :
    Uses ψ p := by
  induction p with
  | ret | throw => trivial
  | op o k ih => exact ⟨hφ o h.1, fun r => ih r (h.2 r)⟩

theorem Uses.liftExcept (x : Except ε α) : Uses φ (liftExcept x : Eff Op Ans ε α) := by
  cases x <;> trivial

/-- **The rule for sequential composition.** -/
theorem Uses.bind {p : Eff Op Ans ε α} {g : α → Eff Op Ans ε β} (hp : Uses φ p)
    (hg : ∀ a, Uses φ (g a)) : Uses φ (p.bind g) := by
  induction p with
  | ret a => exact hg a
  | throw => trivial
  | op o k ih => exact ⟨hp.1, fun r => ih r (hp.2 r)⟩

/-- Every operation satisfies `early` until one satisfies `mark`. -/
def Until (early mark : Op → Prop) : Eff Op Ans ε α → Prop
  | ret _ => True
  | throw _ => True
  | op o k => mark o ∨ (early o ∧ ∀ r, Until early mark (k r))

variable {early mark : Op → Prop}

theorem Uses.until {p : Eff Op Ans ε α} (h : Uses early p) : Until early mark p := by
  induction p with
  | ret | throw => trivial
  | op o k ih => exact Or.inr ⟨h.1, fun r => ih r (h.2 r)⟩

theorem Until.bind {p : Eff Op Ans ε α} {g : α → Eff Op Ans ε β} (hp : Until early mark p)
    (hg : ∀ a, Until early mark (g a)) : Until early mark (p.bind g) := by
  induction p with
  | ret a => exact hg a
  | throw => trivial
  | op o k ih => exact hp.imp_right fun h => ⟨h.1, fun r => ih r (h.2 r)⟩

end Eff

open Eff

/-! ## Semantics -/

/-- What an operation may answer in a store, and the store after it. -/
abbrev Sem (Op : Type) (Ans : Op → Type) (σ : Type) : Type :=
  (o : Op) → σ → Ans o → σ → Prop

/-- An operation performed in a run. -/
structure Call (Op : Type) (Ans : Op → Type) (σ : Type) where
  op : Op
  ans : Ans op
  pre : σ
  post : σ

/-- The calls `cs`, latest first, lead from the program `p` in the store `s` to
    what is left of it. -/
inductive Reaches (sem : Sem Op Ans σ) (p : Eff Op Ans ε α) (s : σ) :
    List (Call Op Ans σ) → Eff Op Ans ε α → σ → Prop
  | start : Reaches sem p s [] p s
  | step {cs o k t r t'} : Reaches sem p s cs (.op o k) t → sem o t r t' →
      Reaches sem p s (⟨o, r, t, t'⟩ :: cs) (k r) t'

/-- The weakest precondition: every operation is performed under `Φ`, every end
    satisfies `Q`. -/
def wp (sem : Sem Op Ans σ) (Φ : Op → σ → Prop) (Q : Except ε α → σ → Prop) :
    Eff Op Ans ε α → σ → Prop
  | .ret a, s => Q (.ok a) s
  | .throw e, s => Q (.error e) s
  | .op o k, s => Φ o s ∧ ∀ r t, sem o s r t → wp sem Φ Q (k r) t

variable {sem : Sem Op Ans σ} {Φ : Op → σ → Prop}

theorem wp.imp {Q Q' : Except ε α → σ → Prop} {p : Eff Op Ans ε α} {s : σ}
    (h : wp sem Φ Q p s) (hQ : ∀ o s, Q o s → Q' o s) : wp sem Φ Q' p s := by
  induction p generalizing s with
  | ret | throw => exact hQ _ s h
  | op o k ih => exact ⟨h.1, fun r t ht => ih r (h.2 r t ht)⟩

/-- **The rule for sequential composition.** -/
theorem wp.bind {Q : Except ε β → σ → Prop} {p : Eff Op Ans ε α} {g : α → Eff Op Ans ε β} {s : σ}
    (h : wp sem Φ (fun o t => match o with
      | .ok a => wp sem Φ Q (g a) t
      | .error e => Q (.error e) t) p s) : wp sem Φ Q (p.bind g) s := by
  induction p generalizing s with
  | ret | throw => exact h
  | op o k ih => exact ⟨h.1, fun r t ht => ih r (h.2 r t ht)⟩

/-- The postcondition with `R` for values and `E` for exceptions. -/
def post (R : α → σ → Prop) (E : ε → σ → Prop) : Except ε α → σ → Prop
  | .ok a => R a
  | .error e => E e

/-- A sequence whose first part has its own postcondition. -/
theorem wp.seq {R : β → σ → Prop} {E : ε → σ → Prop} {R₁ : α → σ → Prop} {E₁ : ε → σ → Prop}
    {p : Eff Op Ans ε α} {g : α → Eff Op Ans ε β} {s : σ} (hp : wp sem Φ (post R₁ E₁) p s)
    (hg : ∀ a t, R₁ a t → wp sem Φ (post R E) (g a) t) (he : ∀ e t, E₁ e t → E e t) :
    wp sem Φ (post R E) (p.bind g) s := by
  refine wp.bind (hp.imp fun o t h => ?_)
  cases o with
  | ok a => exact hg a t h
  | error e => exact he e t h

theorem wp.liftExcept {x : Except ε α} {s : σ} :
    wp sem Φ (post (fun a t => t = s ∧ x = .ok a) fun e t => t = s ∧ x = .error e)
      (Eff.liftExcept x) s := by
  cases x <;> exact ⟨rfl, rfl⟩

/-- **Soundness**: in a run, what is left of the program keeps its precondition,
    and every call was made under `Φ`. -/
theorem wp.reaches {Q : Except ε α → σ → Prop} {p q : Eff Op Ans ε α} {s t : σ}
    {cs : List (Call Op Ans σ)} (h : wp sem Φ Q p s) (hr : Reaches sem p s cs q t) :
    wp sem Φ Q q t ∧ ∀ c ∈ cs, Φ c.op c.pre := by
  induction hr with
  | start => exact ⟨h, by simp⟩
  | step _ hs ih =>
    obtain ⟨⟨hΦ, hk⟩, hcs⟩ := ih
    refine ⟨hk _ _ hs, fun c hc => ?_⟩
    rcases List.mem_cons.1 hc with rfl | hc
    exacts [hΦ, hcs c hc]

/-- Every call of a run was a move of the semantics. -/
theorem Reaches.moves {p q : Eff Op Ans ε α} {s t : σ} {cs : List (Call Op Ans σ)}
    (hr : Reaches sem p s cs q t) : ∀ c ∈ cs, sem c.op c.pre c.ans c.post := by
  induction hr with
  | start => simp
  | step _ hs ih =>
    intro c hc
    rcases List.mem_cons.1 hc with rfl | hc
    exacts [hs, ih c hc]

/-- The operations of the first part come first. -/
theorem Reaches.bind {p q : Eff Op Ans ε α} {g : α → Eff Op Ans ε β} {s t : σ}
    {cs : List (Call Op Ans σ)} (hr : Reaches sem p s cs q t) :
    Reaches sem (p.bind g) s cs (q.bind g) t := by
  induction hr with
  | start => exact .start
  | step _ hs ih => exact ih.step hs

theorem Reaches.one {o : Op} {k : Ans o → Eff Op Ans ε α} {s t : σ} (r : Ans o)
    (h : sem o s r t) : Reaches sem (.op o k) s [⟨o, r, s, t⟩] (k r) t := Reaches.start.step h

theorem Reaches.trans {p q q' : Eff Op Ans ε α} {s t t' : σ} {cs cs' : List (Call Op Ans σ)}
    (hr : Reaches sem p s cs q t) (hr' : Reaches sem q t cs' q' t') :
    Reaches sem p s (cs' ++ cs) q' t' := by
  induction hr' with
  | start => exact hr
  | step _ hs ih => exact ih.step hs

/-- A sequence whose first part has returned. -/
theorem Reaches.seq {p : Eff Op Ans ε α} {g : α → Eff Op Ans ε β} {q : Eff Op Ans ε β} {a : α}
    {s t t' : σ} {cs cs' : List (Call Op Ans σ)} (hr : Reaches sem p s cs (.ret a) t)
    (hr' : Reaches sem (g a) t cs' q t') : Reaches sem (p.bind g) s (cs' ++ cs) q t' :=
  hr.bind.trans hr'

/-! ## Complete runs -/

/-- The end of a program. -/
def Eff.end : Except ε α → Eff Op Ans ε α
  | .ok a => .ret a
  | .error e => .throw e

/-- The calls `cs`, first one first, lead from a program in the store `s` to its end
    `o` in the store `t`. -/
def Ends (sem : Sem Op Ans σ) :
    Eff Op Ans ε α → σ → List (Call Op Ans σ) → Except ε α → σ → Prop
  | .ret a, s, cs, o, t => cs = [] ∧ o = .ok a ∧ t = s
  | .throw e, s, cs, o, t => cs = [] ∧ o = .error e ∧ t = s
  | .op b k, s, cs, o, t => ∃ r u cs', cs = ⟨b, r, s, u⟩ :: cs' ∧ sem b s r u ∧
      Ends sem (k r) u cs' o t

/-- A run up to the end of the program is complete. -/
theorem Reaches.ends {p q : Eff Op Ans ε α} {s t u : σ} {cs cs' : List (Call Op Ans σ)}
    {o : Except ε α} (hr : Reaches sem p s cs q t) (hq : Ends sem q t cs' o u) :
    Ends sem p s (cs.reverse ++ cs') o u := by
  induction hr generalizing cs' with
  | start => exact hq
  | step _ hs ih =>
    rw [List.reverse_cons, List.append_assoc]
    exact ih ⟨_, _, cs', rfl, hs, hq⟩

/-- **The rule for sequential composition.** -/
theorem Ends.bind {p : Eff Op Ans ε α} {g : α → Eff Op Ans ε β} {s t : σ} {o : Except ε β}
    {cs : List (Call Op Ans σ)} (h : Ends sem (p.bind g) s cs o t) :
    (∃ e, o = .error e ∧ Ends sem p s cs (.error e) t) ∨
      ∃ a u cs₁ cs₂, cs = cs₁ ++ cs₂ ∧ Ends sem p s cs₁ (.ok a) u ∧ Ends sem (g a) u cs₂ o t := by
  induction p generalizing s cs with
  | ret a => exact Or.inr ⟨a, s, [], cs, rfl, ⟨rfl, rfl, rfl⟩, h⟩
  | throw e =>
    obtain ⟨rfl, rfl, rfl⟩ := h
    exact Or.inl ⟨e, rfl, rfl, rfl, rfl⟩
  | op o k ih =>
    obtain ⟨r, u, cs', rfl, hs, h⟩ := h
    rcases ih r h with ⟨e, he, hp⟩ | ⟨a, v, cs₁, cs₂, rfl, h₁, h₂⟩
    · exact Or.inl ⟨e, he, r, u, cs', rfl, hs, hp⟩
    · exact Or.inr ⟨a, v, _ :: cs₁, cs₂, rfl, ⟨r, u, cs₁, rfl, hs, h₁⟩, h₂⟩

theorem Ends.bind_ok {p : Eff Op Ans ε α} {g : α → Eff Op Ans ε β} {s t : σ} {b : β}
    {cs : List (Call Op Ans σ)} (h : Ends sem (p.bind g) s cs (.ok b) t) :
    ∃ a u cs₁ cs₂, cs = cs₁ ++ cs₂ ∧ Ends sem p s cs₁ (.ok a) u ∧ Ends sem (g a) u cs₂ (.ok b) t := by
  rcases h.bind with ⟨e, he, -⟩ | h
  · cases he
  · exact h

theorem Ends.lift_ok {x : Except ε α} {g : α → Eff Op Ans ε β} {s t : σ} {b : β}
    {cs : List (Call Op Ans σ)} (h : Ends sem ((Eff.liftExcept x).bind g) s cs (.ok b) t) :
    ∃ a, x = .ok a ∧ Ends sem (g a) s cs (.ok b) t := by
  cases x with
  | ok a => exact ⟨a, rfl, h⟩
  | error => cases h.2.1

/-- A program whose operations are always answered can be completed. -/
theorem exists_ends (h : ∀ o s, ∃ r t, sem o s r t) (p : Eff Op Ans ε α) (s : σ) :
    ∃ cs o t, Ends sem p s cs o t := by
  induction p generalizing s with
  | ret a => exact ⟨[], .ok a, s, rfl, rfl, rfl⟩
  | throw e => exact ⟨[], .error e, s, rfl, rfl, rfl⟩
  | op o k ih =>
    obtain ⟨r, t, hs⟩ := h o s
    obtain ⟨cs, b, u, hends⟩ := ih r t
    exact ⟨_ :: cs, b, u, r, t, cs, rfl, hs, hends⟩

/-- What operations that satisfy `φ` keep, a program of them keeps. -/
theorem Ends.keeps {φ : Op → Prop} {I : σ → Prop} {p : Eff Op Ans ε α} {s t : σ}
    {cs : List (Call Op Ans σ)} {o : Except ε α} (h : Ends sem p s cs o t) (hp : Uses φ p)
    (hφ : ∀ b s r t, φ b → sem b s r t → I s → I t) (hs : I s) : I t := by
  induction p generalizing s cs with
  | ret | throw => exact h.2.2 ▸ hs
  | op b k ih =>
    obtain ⟨r, u, cs', rfl, hsem, h⟩ := h
    exact ih r h (hp.2 r) (hφ b s r u hp.1 hsem hs)

/-- The operations of a complete run are operations of the program. -/
theorem Ends.uses {φ : Op → Prop} {p : Eff Op Ans ε α} {s t : σ} {cs : List (Call Op Ans σ)}
    {o : Except ε α} (h : Ends sem p s cs o t) (hp : Uses φ p) : ∀ c ∈ cs, φ c.op := by
  induction p generalizing s cs with
  | ret | throw =>
    obtain ⟨rfl, -, -⟩ := h
    exact List.forall_mem_nil _
  | op b k ih =>
    obtain ⟨r, u, cs', rfl, -, h⟩ := h
    exact List.forall_mem_cons.2 ⟨hp.1, ih r h (hp.2 r)⟩

/-- The program performs exactly the operations `os`, unless an exception ends it before. -/
def Performs : Eff Op Ans ε α → List Op → Prop
  | .ret _, os => os = []
  | .throw _, _ => True
  | .op o k, os => ∃ os', os = o :: os' ∧ ∀ r, Performs (k r) os'

theorem Performs.bind {p : Eff Op Ans ε α} {g : α → Eff Op Ans ε β} {os os' : List Op}
    (hp : Performs p os) (hg : ∀ a, Performs (g a) os') : Performs (p.bind g) (os ++ os') := by
  induction p generalizing os with
  | ret a =>
    rw [show os = [] from hp]
    exact hg a
  | throw => trivial
  | op o k ih =>
    obtain ⟨os, rfl, hk⟩ := hp
    exact ⟨os ++ os', rfl, fun r => ih r (hk r)⟩

/-- A complete run performs the first of them, and all if it returns. -/
theorem Performs.ends {p : Eff Op Ans ε α} {os : List Op} {s t : σ} {cs : List (Call Op Ans σ)}
    {o : Except ε α} (hp : Performs p os) (h : Ends sem p s cs o t) :
    cs.map Call.op <+: os ∧ ∀ a, o = .ok a → cs.map Call.op = os := by
  induction p generalizing os s cs with
  | ret a =>
    obtain ⟨rfl, -, -⟩ := h
    rw [show os = [] from hp]
    exact ⟨List.prefix_refl _, fun _ _ => rfl⟩
  | throw =>
    obtain ⟨rfl, rfl, -⟩ := h
    refine ⟨List.nil_prefix, ?_⟩
    rintro a ⟨⟩
  | op b k ih =>
    obtain ⟨os, rfl, hk⟩ := hp
    obtain ⟨r, u, cs, rfl, -, h⟩ := h
    obtain ⟨hpre, hall⟩ := ih r (hk r) h
    exact ⟨List.cons_prefix_cons.2 ⟨rfl, hpre⟩, fun a ha => congrArg (b :: ·) (hall a ha)⟩

/-! ## Programs within programs -/

/-- One program after the other, with their results. -/
def Eff.each (f : β → Eff Op Ans ε α) : List β → Eff Op Ans ε (List α)
  | [] => .ret []
  | x :: xs => (f x).bind fun y => (each f xs).bind fun ys => .ret (y :: ys)

/-- **A run of one program after the other** is made of their runs, up to the first that
    raises. -/
theorem Ends.each {f : β → Eff Op Ans ε α} {xs : List β} {s t : σ} {cs : List (Call Op Ans σ)}
    {o : Except ε (List α)} {R : β → List (Call Op Ans σ) → Except ε α → Prop}
    (hR : ∀ x s cs o t, Ends sem (f x) s cs o t → R x cs o) (h : Ends sem (Eff.each f xs) s cs o t) :
    ∃ runs : List (β × List (Call Op Ans σ) × α), (∀ p ∈ runs, R p.1 p.2.1 (.ok p.2.2)) ∧
      ((cs = runs.flatMap (·.2.1) ∧ runs.map (·.1) = xs ∧ o = .ok (runs.map (·.2.2))) ∨
      ∃ x xs' cs' e, xs = runs.map (·.1) ++ x :: xs' ∧ cs = runs.flatMap (·.2.1) ++ cs' ∧
        R x cs' (.error e) ∧ o = .error e) := by
  induction xs generalizing s cs o with
  | nil => exact ⟨[], by simp, Or.inl ⟨h.1, rfl, h.2.1⟩⟩
  | cons x xs ih =>
    rcases h.bind with ⟨e, rfl, hx⟩ | ⟨y, u, cs₁, cs₂, rfl, hx, h⟩
    · exact ⟨[], by simp, Or.inr ⟨x, xs, cs, e, rfl, rfl, hR _ _ _ _ _ hx, rfl⟩⟩
    rcases h.bind with ⟨e, rfl, hxs⟩ | ⟨ys, v, cs₂, cs₃, rfl, hxs, rfl, rfl, rfl⟩
    · obtain ⟨runs, hruns, ⟨-, -, ho⟩ | ⟨x', xs', cs', e', rfl, rfl, hx', ho⟩⟩ := ih hxs
      · cases ho
      · cases ho
        refine ⟨(x, cs₁, y) :: runs, ?_, Or.inr ⟨x', xs', cs', e, rfl, ?_, hx', rfl⟩⟩
        · exact List.forall_mem_cons.2 ⟨hR _ _ _ _ _ hx, hruns⟩
        · rw [List.flatMap_cons, List.append_assoc]
    · obtain ⟨runs, hruns, ⟨rfl, rfl, ho⟩ | ⟨x', xs', cs', e', -, -, -, ho⟩⟩ := ih hxs
      · cases ho
        refine ⟨(x, cs₁, _) :: runs, ?_, Or.inl ⟨?_, rfl, rfl⟩⟩
        · exact List.forall_mem_cons.2 ⟨hR _ _ _ _ _ hx, hruns⟩
        · rw [List.flatMap_cons, List.append_nil]
      · cases ho

section Rename
variable {Op' : Type} {Ans' : Op' → Type} {ε' : Type} (f : Op → Op')
  (ans : ∀ o, Ans' (f o) → Ans o) (exn : ε → ε')

/-- A program over other operations: `f o` stands for `o`, and `ans` reads its answers. -/
def Eff.rename : Eff Op Ans ε α → Eff Op' Ans' ε' α
  | .ret a => .ret a
  | .throw e => .throw (exn e)
  | .op o k => .op (f o) fun r => rename (k (ans o r))

/-- What the operations mean that are stood for. -/
def Sem.pull (sem' : Sem Op' Ans' σ) : Sem Op Ans σ := fun o s r t =>
  ∃ r', sem' (f o) s r' t ∧ ans o r' = r

/-- A call of the other operations stands for a call of the program. -/
def StandsFor (c : Call Op' Ans' σ) (c' : Call Op Ans σ) : Prop :=
  ∃ r', c = ⟨f c'.op, r', c'.pre, c'.post⟩ ∧ ans c'.op r' = c'.ans

variable {f ans exn}

theorem Eff.Uses.rename {φ : Op' → Prop} {p : Eff Op Ans ε α} (h : Uses (fun o => φ (f o)) p) :
    Uses φ (p.rename f ans exn) := by
  induction p with
  | ret | throw => trivial
  | op o k ih => exact ⟨h.1, fun r => ih _ (h.2 _)⟩

/-- **A run over other operations** is a run of the program, whose calls its calls stand for. -/
theorem Ends.rename {sem' : Sem Op' Ans' σ} {p : Eff Op Ans ε α} {s t : σ}
    {cs : List (Call Op' Ans' σ)} {o : Except ε' α} (h : Ends sem' (p.rename f ans exn) s cs o t) :
    ∃ cs' o', Ends (Sem.pull f ans sem') p s cs' o' t ∧
      List.Forall₂ (StandsFor f ans) cs cs' ∧ o = o'.mapError exn := by
  induction p generalizing s cs with
  | ret a =>
    obtain ⟨rfl, rfl, rfl⟩ := h
    exact ⟨[], .ok a, ⟨rfl, rfl, rfl⟩, .nil, rfl⟩
  | throw e =>
    obtain ⟨rfl, rfl, rfl⟩ := h
    exact ⟨[], .error e, ⟨rfl, rfl, rfl⟩, .nil, rfl⟩
  | op b k ih =>
    obtain ⟨r, u, cs, rfl, hs, h⟩ := h
    obtain ⟨cs', o', h', hcs, rfl⟩ := ih _ h
    exact ⟨⟨b, ans b r, s, u⟩ :: cs', o', ⟨_, u, cs', rfl, ⟨r, hs, rfl⟩, h'⟩,
      .cons ⟨r, rfl, rfl⟩ hcs, rfl⟩

end Rename

/-! ## Interpreters -/

section Play
variable {τ : Type} (exec : (o : Op) → τ → Ans o × τ) (view : τ → σ)

/-- The run that an interpreter makes: its end, its calls, latest first, and the store
    after it. -/
def play : Eff Op Ans ε α → τ → List (Call Op Ans σ) → Except ε α × List (Call Op Ans σ) × τ
  | .ret a, s, cs => (.ok a, cs, s)
  | .throw e, s, cs => (.error e, cs, s)
  | .op o k, s, cs =>
    let (r, t) := exec o s
    play (k r) t (⟨o, r, view s, view t⟩ :: cs)

variable {exec view}

/-- **The run of an interpreter is a run**, if its answers are answers. -/
theorem reaches_play (hexec : ∀ o s, sem o (view s) (exec o s).1 (view (exec o s).2))
    {p q : Eff Op Ans ε α} {s₀ : σ} {s : τ} {cs : List (Call Op Ans σ)}
    (hr : Reaches sem p s₀ cs q (view s)) :
    let x := play exec view q s cs
    Reaches sem p s₀ x.2.1 (Eff.end x.1) (view x.2.2) := by
  induction q generalizing s cs with
  | ret | throw => exact hr
  | op o k ih => exact ih _ (hr.step (hexec o s))

theorem ends_end (o : Except ε α) (s : σ) : Ends sem (Eff.end o) s [] o s := by
  cases o <;> exact ⟨rfl, rfl, rfl⟩

variable (exec view) in
/-- **The run of an interpreter is complete.** -/
theorem ends_play (hexec : ∀ o s, sem o (view s) (exec o s).1 (view (exec o s).2))
    (p : Eff Op Ans ε α) (s : τ) :
    Ends sem p (view s) (play exec view p s []).2.1.reverse (play exec view p s []).1
      (view (play exec view p s []).2.2) := by
  have h : Reaches sem p (view s) _ _ _ := reaches_play hexec Reaches.start
  simpa only [List.append_nil] using h.ends (ends_end (play exec view p s []).1 _)

end Play

/-! ## Programs among others -/

/-- The calls `cs`, latest first, lead from the program `p` to what is left of it,
    whatever becomes of the store between them. -/
inductive Trail (p : Eff Op Ans ε α) : List (Call Op Ans σ) → Eff Op Ans ε α → Prop
  | start : Trail p [] p
  | step {cs o k} (r s t) : Trail p cs (.op o k) → Trail p (⟨o, r, s, t⟩ :: cs) (k r)

/-- The operations of a trail are operations of the program. -/
theorem Eff.Uses.trail {φ : Op → Prop} {p q : Eff Op Ans ε α} {cs : List (Call Op Ans σ)}
    (h : Uses φ p) (ht : Trail p cs q) : Uses φ q ∧ ∀ c ∈ cs, φ c.op := by
  induction ht with
  | start => exact ⟨h, by simp⟩
  | step r s t _ ih =>
    refine ⟨ih.1.2 r, fun c hc => ?_⟩
    rcases List.mem_cons.1 hc with rfl | hc
    exacts [ih.1.1, ih.2 c hc]

/-- In a trail, either the marked operation was performed or only early ones were. -/
theorem Eff.Until.trail {early mark : Op → Prop} {p q : Eff Op Ans ε α}
    {cs : List (Call Op Ans σ)} (h : Until early mark p) (ht : Trail p cs q) :
    (∃ c ∈ cs, mark c.op) ∨ (Until early mark q ∧ ∀ c ∈ cs, early c.op) := by
  induction ht with
  | start => exact Or.inr ⟨h, by simp⟩
  | step r s t _ ih =>
    rcases ih with ⟨c, hc, hm⟩ | ⟨hm | ⟨he, hk⟩, hcs⟩
    · exact Or.inl ⟨c, List.mem_cons_of_mem _ hc, hm⟩
    · exact Or.inl ⟨_, List.mem_cons_self, hm⟩
    · refine Or.inr ⟨hk r, fun c hc => ?_⟩
      rcases List.mem_cons.1 hc with rfl | hc
      exacts [he, hcs c hc]

end Effects
