/-
  A service: handlers of concurrent requests over one store.

  A configuration holds the store and the handlers started so far, each at the
  point it has reached.  A run interleaves the arrival of requests, the actions
  of the handlers and actions of the environment in any order; a handler that
  has ended stays in the configuration with its outcome.

  * `Run c₀ tr c`: `tr` is the list of transitions, latest first, that leads
    from `c₀` to `c`;
  * `Run.handlers`: what holds of every handler started so far, by induction;
  * `Sound` is the rely/guarantee condition on a service: `Sound.inv` its
    invariant, `Sound.cases` what a transition of a run can do to the store;
  * `Run.before`: a handler has performed the actions its program requires;
  * `Run.afterWrite`: how a handler that has written is bound to end;
  * `Run.first`: how a handler ends that finds what it needs when it first acts;
  * `run_exec`: handling one request alone is a run.
-/
import MediaOrchard.Lib.Prog
import Mathlib.Data.List.Basic

namespace Interleave

/-- Handlers of requests `ρ`, and environment actions `η` on the store. -/
structure Service (σ ε α ρ η : Type) where
  handler : ρ → Prog σ ε α
  env : η → σ → σ

/-- The store and the handlers started so far. -/
structure Conf (σ ε α ρ : Type) where
  db : σ
  procs : List (ρ × Prog σ ε α)

/-- An action of a run: a request arrives, a handler acts, the environment acts. -/
inductive Act (ρ η : Type) where
  | arrive (r : ρ)
  | act (i : ℕ)
  | env (e : η)

variable {σ ε α ρ η : Type}

/-- No handler is in flight. -/
def Conf.Quiet (c : Conf σ ε α ρ) : Prop :=
  ∀ q ∈ c.procs, (∃ a, q.2 = .ret a) ∨ (∃ e, q.2 = .throw e)

instance (p : Prog σ ε α) : Decidable ((∃ a, p = .ret a) ∨ ∃ e, p = .throw e) :=
  match p with
  | .ret a => .isTrue (Or.inl ⟨a, rfl⟩)
  | .throw e => .isTrue (Or.inr ⟨e, rfl⟩)
  | .act _ _ => .isFalse (by rintro (⟨_, h⟩ | ⟨_, h⟩) <;> cases h)

instance (c : Conf σ ε α ρ) : Decidable c.Quiet :=
  inferInstanceAs (Decidable (∀ q ∈ c.procs, (∃ a, q.2 = .ret a) ∨ ∃ e, q.2 = .throw e))

instance (a : Act ρ η) : Decidable (∀ e, a ≠ .env e) :=
  match a with
  | .env e => .isFalse fun h => h e rfl
  | .arrive _ | .act _ => .isTrue fun _ h => nomatch h

namespace Service
variable (S : Service σ ε α ρ η)

/-- The configuration after an action; a handler that has ended stays as it is. -/
def step (c : Conf σ ε α ρ) : Act ρ η → Conf σ ε α ρ
  | .arrive r => ⟨c.db, c.procs ++ [(r, S.handler r)]⟩
  | .act i => match c.procs[i]? with
    | some (r, .act f k) => ⟨f c.db, c.procs.set i (r, k c.db)⟩
    | _ => c
  | .env e => ⟨S.env e c.db, c.procs⟩

end Service

/-- A transition: the configuration before it and the action. -/
structure Trans (S : Service σ ε α ρ η) where
  pre : Conf σ ε α ρ
  act : Act ρ η

namespace Trans
variable {S : Service σ ε α ρ η}

/-- The configuration after the transition. -/
def post (t : Trans S) : Conf σ ε α ρ := S.step t.pre t.act

/-- The transition is an action of handler `i`, which handles `r`. -/
def By (t : Trans S) (i : ℕ) (r : ρ) : Prop :=
  t.act = .act i ∧ (t.pre.procs[i]?).map Prod.fst = some r

theorem By.unique {t : Trans S} {i j : ℕ} {r r' : ρ} (h : t.By i r) (h' : t.By j r') : r = r' := by
  obtain rfl : i = j := Act.act.inj (h.1.symm.trans h'.1)
  exact Option.some.inj (h.2.symm.trans h'.2)

end Trans

namespace Service
variable {S : Service σ ε α ρ η}

variable (S) in
/-- Runs from `c₀`, with the transitions made, latest first. -/
inductive Run (c₀ : Conf σ ε α ρ) : List (Trans S) → Conf σ ε α ρ → Prop
  | init : Run c₀ [] c₀
  | step {tr c} : Run c₀ tr c → ∀ a, Run c₀ (⟨c, a⟩ :: tr) (S.step c a)

variable (S) in
/-- The transitions of a list of actions, latest first, and where they lead. -/
def trace (c₀ : Conf σ ε α ρ) : List (Act ρ η) → List (Trans S) × Conf σ ε α ρ
  | [] => ([], c₀)
  | a :: as => let r := trace c₀ as; (⟨r.2, a⟩ :: r.1, S.step r.2 a)

/-- Every list of actions, latest first, is a run. -/
theorem run_trace (c₀ : Conf σ ε α ρ) : ∀ as, S.Run c₀ (S.trace c₀ as).1 (S.trace c₀ as).2
  | [] => .init
  | a :: as => (run_trace c₀ as).step a

theorem Run.append {c₀ c₁ c₂ : Conf σ ε α ρ} {tr₁ tr₂ : List (Trans S)} (h₁ : S.Run c₀ tr₁ c₁)
    (h₂ : S.Run c₁ tr₂ c₂) : S.Run c₀ (tr₂ ++ tr₁) c₂ := by
  induction h₂ with
  | init => exact h₁
  | step _ a ih => exact ih.step a

/-- Every transition of a run is preceded by a run. -/
theorem Run.split {c₀ c : Conf σ ε α ρ} {tr tr₁ tr₂ : List (Trans S)} {t : Trans S}
    (h : S.Run c₀ tr c) (ht : tr = tr₂ ++ t :: tr₁) : S.Run c₀ tr₁ t.pre := by
  induction h generalizing tr₂ with
  | init => simp at ht
  | step h a ih =>
    cases tr₂ with
    | nil =>
      simp only [List.nil_append, List.cons.injEq] at ht
      obtain ⟨rfl, rfl⟩ := ht
      exact h
    | cons t' tr₂ =>
      simp only [List.cons_append, List.cons.injEq] at ht
      exact ih ht.2

theorem Run.of_mem {c₀ c : Conf σ ε α ρ} {tr : List (Trans S)} {t : Trans S}
    (h : S.Run c₀ tr c) (ht : t ∈ tr) : ∃ tr₁, S.Run c₀ tr₁ t.pre ∧ ∀ t' ∈ tr₁, t' ∈ tr := by
  obtain ⟨tr₂, tr₁, rfl⟩ := List.append_of_mem ht
  exact ⟨tr₁, h.split rfl, fun t' ht' => by simp [ht']⟩

/-- A relation between each transition and the ones before it holds pairwise. -/
theorem Run.pairwise {c₀ c : Conf σ ε α ρ} {tr : List (Trans S)} (h : S.Run c₀ tr c)
    {Q : Trans S → Trans S → Prop} (hQ : ∀ tr₁ t, S.Run c₀ tr₁ t.pre →
      S.Run c₀ (t :: tr₁) t.post → ∀ t' ∈ tr₁, Q t t') : tr.Pairwise Q := by
  induction h with
  | init => exact List.Pairwise.nil
  | step h a ih => exact ih.cons fun t' ht' => hQ _ ⟨_, a⟩ h (h.step a) t' ht'

/-- The action of handler `i`: nothing, or the next action of its program. -/
theorem step_act (c : Conf σ ε α ρ) (i : ℕ) :
    S.step c (.act i) = c ∨ ∃ r f k, c.procs[i]? = some (r, .act f k) ∧
      S.step c (.act i) = ⟨f c.db, c.procs.set i (r, k c.db)⟩ := by
  rcases h : c.procs[i]? with _ | ⟨r, p⟩
  · exact Or.inl (by simp only [Service.step, h])
  · cases p with
    | ret | throw => exact Or.inl (by simp only [Service.step, h])
    | act f k => exact Or.inr ⟨r, f, k, rfl, by simp only [Service.step, h]⟩

/-- A handler stays as it is unless it acts. -/
theorem step_proc {c : Conf σ ε α ρ} {i : ℕ} {r : ρ} {p : Prog σ ε α}
    (hp : c.procs[i]? = some (r, p)) (a : Act ρ η) :
    (S.step c a).procs[i]? = some (r, p) ∨ ∃ f k, p = .act f k ∧ a = .act i ∧
      (S.step c a).db = f c.db ∧ (S.step c a).procs[i]? = some (r, k c.db) := by
  have hi := (List.getElem?_eq_some_iff.1 hp).1
  cases a with
  | arrive r' => exact Or.inl (by simp [Service.step, List.getElem?_append_left hi, hp])
  | env e => exact Or.inl hp
  | act j =>
    rcases step_act (S := S) c j with hs | ⟨r', f, k, hj, hs⟩
    · rw [hs]; exact Or.inl hp
    · rw [hs]
      by_cases hij : j = i
      · subst hij
        cases hp.symm.trans hj
        exact Or.inr ⟨f, k, rfl, rfl, rfl, List.getElem?_set_self hi⟩
      · exact Or.inl (by rw [List.getElem?_set_ne hij]; exact hp)

/-- A handler has just arrived or was there before. -/
theorem step_arrived {c : Conf σ ε α ρ} {a : Act ρ η} {i : ℕ} {r : ρ} {p : Prog σ ε α}
    (hp : (S.step c a).procs[i]? = some (r, p)) :
    (a = .arrive r ∧ i = c.procs.length ∧ p = S.handler r) ∨ ∃ p', c.procs[i]? = some (r, p') := by
  cases a with
  | env e => exact Or.inr ⟨p, hp⟩
  | arrive r' =>
    simp only [Service.step] at hp
    rcases Nat.lt_or_ge i c.procs.length with hl | hl
    · rw [List.getElem?_append_left hl] at hp
      exact Or.inr ⟨p, hp⟩
    · have hi := (List.getElem?_eq_some_iff.1 hp).1
      rw [List.length_append, List.length_singleton] at hi
      obtain rfl : i = c.procs.length := by omega
      rw [List.getElem?_append_right hl] at hp
      obtain ⟨rfl, rfl⟩ := Prod.mk.inj (List.mem_singleton.1 (List.mem_of_getElem? hp))
      exact Or.inl ⟨rfl, rfl, rfl⟩
  | act j =>
    rcases step_act (S := S) c j with hs | ⟨r', f, k, hj, hs⟩
    · rw [hs] at hp; exact Or.inr ⟨p, hp⟩
    · rw [hs] at hp
      by_cases hij : j = i
      · subst hij
        rw [List.getElem?_set_self (List.getElem?_eq_some_iff.1 hj).1] at hp
        cases hp
        exact Or.inr ⟨_, hj⟩
      · rw [List.getElem?_set_ne hij] at hp
        exact Or.inr ⟨p, hp⟩

/-- The handlers of a trace are those of requests that have arrived. -/
theorem arrived_of_trace {s₀ : σ} (as : List (Act ρ η)) {q : ρ × Prog σ ε α}
    (hq : q ∈ (S.trace ⟨s₀, []⟩ as).2.procs) : Act.arrive q.1 ∈ as := by
  obtain ⟨r, p⟩ := q
  obtain ⟨i, hi⟩ := List.mem_iff_getElem?.1 hq
  clear hq
  induction as generalizing p with
  | nil => simp [trace] at hi
  | cons a as ih =>
    rcases step_arrived hi with ⟨rfl, -, -⟩ | ⟨p', hi'⟩
    · exact List.mem_cons_self
    · exact List.mem_cons_of_mem _ (ih p' hi')

/-- The handlers of a run keep their requests. -/
theorem Run.handler_stays {c₀ c : Conf σ ε α ρ} {tr : List (Trans S)} (h : S.Run c₀ tr c)
    {t : Trans S} (ht : t ∈ tr) {i : ℕ} {r : ρ} (hby : t.By i r) :
    ∃ p, c.procs[i]? = some (r, p) := by
  have hkeep : ∀ {c : Conf σ ε α ρ} {p} (a : Act ρ η), c.procs[i]? = some (r, p) →
      ∃ p', (S.step c a).procs[i]? = some (r, p') := by
    intro c p a hp
    rcases step_proc (S := S) hp a with hp' | ⟨f, k, -, -, -, hp'⟩
    exacts [⟨p, hp'⟩, ⟨_, hp'⟩]
  induction h with
  | init => exact absurd ht List.not_mem_nil
  | @step tr c h a ih =>
    rcases List.mem_cons.1 ht with rfl | ht
    · obtain ⟨⟨r', p⟩, hp, rfl⟩ := Option.map_eq_some_iff.1 hby.2
      exact hkeep a hp
    · obtain ⟨p, hp⟩ := ih ht
      exact hkeep a hp

/-! ## Rely and guarantee -/

open Prog

/-- The service keeps the guarantee `G r` while handling `r`, relying on `R`,
    from the invariant `I` on. -/
structure Sound (S : Service σ ε α ρ η) (R : σ → σ → Prop) (G : ρ → σ → σ → Prop)
    (I : σ → Prop) : Prop where
  stable : Stable R I
  handler : ∀ r, Spec R (G r) (fun _ _ => True) (S.handler r) I
  guar : ∀ r s s', I s → G r s s' → R s s'
  env : ∀ e s, I s → R s (S.env e s)

/-- A handler in flight continues to meet its triple under an assertion that
    holds now and is stable. -/
def Kept (R : σ → σ → Prop) (G : ρ → σ → σ → Prop) (s : σ) (q : ρ × Prog σ ε α) : Prop :=
  ∃ P, Stable R P ∧ P s ∧ Spec R (G q.1) (fun _ _ => True) q.2 P

variable {R : σ → σ → Prop} {G : ρ → σ → σ → Prop} {I : σ → Prop}

theorem Kept.mono {s s' : σ} {q : ρ × Prog σ ε α} (h : Kept R G s q) (hR : R s s') :
    Kept R G s' q := by
  obtain ⟨P, hP, hs, hq⟩ := h
  exact ⟨P, hP, hP s s' hs hR, hq⟩

/-- What one action does to the store. -/
def Change (S : Service σ ε α ρ η) (G : ρ → σ → σ → Prop) (t : Trans S) : Prop :=
  t.post.db = t.pre.db ∨ (∃ i r, t.By i r ∧ G r t.pre.db t.post.db) ∨
    ∃ e, t.act = .env e ∧ t.post.db = S.env e t.pre.db

/-- **One step**: the invariant is kept, and the store changes as guaranteed. -/
theorem Sound.step (hS : S.Sound R G I) {c : Conf σ ε α ρ} (hI : I c.db)
    (hk : ∀ q ∈ c.procs, Kept R G c.db q) (a : Act ρ η) :
    I (S.step c a).db ∧ (∀ q ∈ (S.step c a).procs, Kept R G (S.step c a).db q) ∧
      Change S G ⟨c, a⟩ := by
  cases a with
  | arrive r =>
    refine ⟨hI, fun q hq => ?_, Or.inl rfl⟩
    rcases List.mem_append.1 hq with hq | hq
    · exact hk q hq
    · rw [List.mem_singleton.1 hq]
      exact ⟨I, hS.stable, hI, hS.handler r⟩
  | env e =>
    have hR := hS.env e c.db hI
    exact ⟨hS.stable _ _ hI hR, fun q hq => (hk q hq).mono hR, Or.inr (Or.inr ⟨e, rfl, rfl⟩)⟩
  | act i =>
    rcases step_act (S := S) c i with hs | ⟨r, f, k, hi, hs⟩
    · refine ⟨by rw [hs]; exact hI, by rw [hs]; exact hk, Or.inl ?_⟩
      simp only [Trans.post, hs]
    · obtain ⟨P, -, hPc, hq⟩ := hk _ (List.mem_of_getElem? hi)
      obtain ⟨hG, P', hP', hPs, hq'⟩ := hq c.db hPc
      have hR := hS.guar r _ _ hI hG
      rw [hs]
      refine ⟨hS.stable _ _ hI hR, fun q hqm => ?_, Or.inr (Or.inl ⟨i, r, ⟨rfl, ?_⟩, ?_⟩)⟩
      · rcases List.mem_or_eq_of_mem_set hqm with hqm | rfl
        · exact (hk q hqm).mono hR
        · exact ⟨P', hP', hPs, hq'⟩
      · simp [hi]
      · simp only [Trans.post, hs]; exact hG

/-- **The invariant of a run.** -/
theorem Sound.inv (hS : S.Sound R G I) {s₀ : σ} (h₀ : I s₀) {tr : List (Trans S)}
    {c : Conf σ ε α ρ} (h : S.Run ⟨s₀, []⟩ tr c) :
    I c.db ∧ (∀ q ∈ c.procs, Kept R G c.db q) ∧ ∀ t ∈ tr, I t.pre.db ∧ Change S G t := by
  induction h with
  | init => exact ⟨h₀, by simp, by simp⟩
  | step h a ih =>
    obtain ⟨hI, hk, ht⟩ := ih
    obtain ⟨h1, h2, h3⟩ := hS.step hI hk a
    refine ⟨h1, h2, fun t hmem => ?_⟩
    rcases List.mem_cons.1 hmem with rfl | hmem
    · exact ⟨hI, h3⟩
    · exact ht t hmem

/-- **What a transition of a run does to the store.** -/
theorem Sound.cases (hS : S.Sound R G I) {s₀ : σ} (h₀ : I s₀) {tr : List (Trans S)}
    {c : Conf σ ε α ρ} (h : S.Run ⟨s₀, []⟩ tr c) {t : Trans S} (ht : t ∈ tr) : Change S G t :=
  ((hS.inv h₀ h).2.2 t ht).2

theorem Sound.rely (hS : S.Sound R G I) (hR : ∀ s, I s → R s s) {t : Trans S} (hI : I t.pre.db)
    (h : Change S G t) : R t.pre.db t.post.db := by
  rcases h with h | ⟨i, r, -, h⟩ | ⟨e, -, h⟩
  · rw [h]; exact hR _ hI
  · exact hS.guar r _ _ hI h
  · rw [h]; exact hS.env e _ hI

/-- An action of a handler is an action of its program. -/
theorem Run.acts {G : ρ → σ → σ → Prop} (hG : ∀ r, Acts (G r) (S.handler r)) {s₀ : σ}
    {tr : List (Trans S)} {c : Conf σ ε α ρ} (h : S.Run ⟨s₀, []⟩ tr c) {t : Trans S} (ht : t ∈ tr)
    {i : ℕ} {r : ρ} (hby : t.By i r) : t.post.db = t.pre.db ∨ G r t.pre.db t.post.db := by
  have hS : S.Sound (fun _ _ => True) G fun _ => True :=
    ⟨Stable.const True, hG, fun _ _ _ _ _ => trivial, fun _ _ _ => trivial⟩
  rcases hS.cases trivial h ht with he | ⟨i', r', hby', hg⟩ | ⟨e, he, -⟩
  · exact Or.inl he
  · obtain rfl : i = i' := Act.act.inj (hby.1.symm.trans hby'.1)
    obtain rfl : r = r' := Option.some.inj (hby.2.symm.trans hby'.2)
    exact Or.inr hg
  · rw [hby.1] at he
    cases he

/-! ## What a handler has done -/

/-- A handler that must act in `W` before it ends does so now or still must. -/
theorem step_before {A : σ → Prop} {W : σ → σ → Prop} {fin : Except ε α → Prop}
    {c : Conf σ ε α ρ} {i : ℕ} {r : ρ} {p : Prog σ ε α} (hp : c.procs[i]? = some (r, p))
    (hb : Before A W fin p) (hA : A c.db) (a : Act ρ η) :
    (a = .act i ∧ W c.db (S.step c a).db) ∨
      ∃ p', (S.step c a).procs[i]? = some (r, p') ∧ Before A W fin p' := by
  rcases step_proc (S := S) hp a with hp' | ⟨f, k, rfl, ha, hdb, hp'⟩
  · exact Or.inr ⟨p, hp', hb⟩
  · rw [hdb]
    exact (hb c.db hA).imp (fun hw => ⟨ha, hw⟩) fun hb => ⟨_, hp', hb⟩

/-- **A handler has acted before it ended.**  If the program of every request
    `r` must perform an action in `W r` before an outcome outside `fin r`, then
    in a run every handler either has performed one or still must. -/
theorem Run.before {A : σ → Prop} {W : ρ → σ → σ → Prop} {fin : ρ → Except ε α → Prop}
    (hB : ∀ r, Before A (W r) (fin r) (S.handler r)) {s₀ : σ} {tr : List (Trans S)}
    {c : Conf σ ε α ρ} (h : S.Run ⟨s₀, []⟩ tr c) (hA : ∀ t ∈ tr, A t.pre.db) :
    ∀ i r p, c.procs[i]? = some (r, p) →
      (∃ t ∈ tr, t.By i r ∧ W r t.pre.db t.post.db) ∨ Before A (W r) (fin r) p := by
  induction h with
  | init => intro i r p hi; simp at hi
  | @step tr c h a ih =>
    intro i r p hi
    rcases step_arrived hi with ⟨-, -, rfl⟩ | ⟨p', hi'⟩
    · exact Or.inr (hB r)
    rcases ih (fun t ht => hA t (List.mem_cons_of_mem _ ht)) i r p' hi' with ⟨t, ht, hw⟩ | hb
    · exact Or.inl ⟨t, List.mem_cons_of_mem _ ht, hw⟩
    · rcases step_before (S := S) hi' hb (hA _ List.mem_cons_self) a with ⟨rfl, hw⟩ | ⟨q, hq, hb⟩
      · exact Or.inl ⟨_, List.mem_cons_self, ⟨rfl, by simp [hi']⟩, hw⟩
      · cases hi.symm.trans hq
        exact Or.inr hb

/-- **What holds of the handlers in a run** is what holds of the programs of the
    requests and is kept by their actions. -/
theorem Run.handlers {P : ρ → Prog σ ε α → Prop} (hP : ∀ r, P r (S.handler r))
    (hact : ∀ r f k s, P r (.act f k) → P r (k s)) {s₀ : σ} {tr : List (Trans S)}
    {c : Conf σ ε α ρ} (h : S.Run ⟨s₀, []⟩ tr c) :
    ∀ (i : ℕ) r p, c.procs[i]? = some (r, p) → P r p := by
  induction h with
  | init => intro i r p hi; simp at hi
  | @step tr c h a ih =>
    intro i r p hi
    rcases step_arrived hi with ⟨-, -, rfl⟩ | ⟨p', hi'⟩
    · exact hP r
    rcases step_proc (S := S) hi' a with hp | ⟨f, k, rfl, -, -, hp⟩
    · cases hi.symm.trans hp
      exact ih i r p hi'
    · cases hi.symm.trans hp
      exact hact r f k c.db (ih i r _ hi')

/-- **What a handler does next.**  If after an action in `W r` the rest of the
    program of `r` satisfies `T r`, then so it does in a run. -/
theorem Run.next {W : ρ → σ → σ → Prop} {T : ρ → Prog σ ε α → Prop} (hW : ∀ r s, ¬ W r s s)
    (hT : ∀ r, Then (W r) (T r) (S.handler r)) {s₀ : σ} {tr : List (Trans S)} {c : Conf σ ε α ρ}
    (h : S.Run ⟨s₀, []⟩ tr c) :
    (∀ (i : ℕ) r p, c.procs[i]? = some (r, p) → Then (W r) (T r) p) ∧
      ∀ t ∈ tr, ∀ (i : ℕ) r, t.By i r → W r t.pre.db t.post.db →
        ∃ p, t.post.procs[i]? = some (r, p) ∧ T r p := by
  have hthen : ∀ {tr c}, S.Run ⟨s₀, []⟩ tr c → ∀ (i : ℕ) r p, c.procs[i]? = some (r, p) →
      Then (W r) (T r) p := fun h => h.handlers hT fun r f k s hp => (hp s).2
  refine ⟨hthen h, ?_⟩
  induction h with
  | init => exact fun t ht => absurd ht List.not_mem_nil
  | @step tr c h a ih =>
    intro t ht i r hby hw
    rcases List.mem_cons.1 ht with rfl | ht
    · obtain ⟨ha, hr⟩ := hby
      obtain ⟨⟨r', p⟩, hp, rfl⟩ := Option.map_eq_some_iff.1 hr
      cases ha
      rcases step_act (S := S) c i with hs | ⟨r, f, k, hi, hs⟩
      · exact absurd (show W r' c.db c.db by simpa [Trans.post, hs] using hw) (hW _ _)
      · cases hp.symm.trans hi
        refine ⟨k c.db, ?_, (hthen h i r' _ hi c.db).1 (by simpa [Trans.post, hs] using hw)⟩
        simp only [Trans.post, hs]
        exact List.getElem?_set_self (List.getElem?_eq_some_iff.1 hi).1
    · exact ih t ht i r hby hw

/-- **What a handler may do.**  If `φ r` holds before every action of the program
    of `r`, then so it does in a run. -/
theorem Run.every {φ : ρ → Prog σ ε α → Prop} (hφ : ∀ r, Every (φ r) (S.handler r)) {s₀ : σ}
    {tr : List (Trans S)} {c : Conf σ ε α ρ} (h : S.Run ⟨s₀, []⟩ tr c) :
    ∀ (i : ℕ) r p, c.procs[i]? = some (r, p) → Every (φ r) p :=
  h.handlers hφ fun _ _ _ s hp => hp.2 s

/-! ## How a handler ends -/

/-- The actions of handler `i` in a run left the store alone. -/
def Unwritten (tr : List (Trans S)) (i : ℕ) (r : ρ) : Prop :=
  ∀ t ∈ tr, t.By i r → t.post.db = t.pre.db

/-- A handler that has just arrived has not acted. -/
theorem Run.not_by {c₀ c : Conf σ ε α ρ} {tr : List (Trans S)} (h : S.Run c₀ tr c) (r : ρ) :
    ∀ t ∈ tr, ¬ t.By c.procs.length r := by
  intro t ht hby
  obtain ⟨p, hp⟩ := h.handler_stays ht hby
  exact absurd (List.getElem?_eq_some_iff.1 hp).1 (Nat.lt_irrefl _)

/-- The action of a handler: nothing once it has ended, else the next action of
    its program. -/
theorem step_own {c : Conf σ ε α ρ} {i : ℕ} {r : ρ} {p q : Prog σ ε α}
    (hp : c.procs[i]? = some (r, p)) (hq : (S.step c (.act i)).procs[i]? = some (r, q)) :
    ((S.step c (.act i)).db = c.db ∧ q = p) ∨
      ∃ f k, p = .act f k ∧ (S.step c (.act i)).db = f c.db ∧ q = k c.db := by
  cases p with
  | ret | throw =>
    have hs : S.step c (.act i) = c := by simp only [Service.step, hp]
    rw [hs] at hq ⊢
    cases hp.symm.trans hq
    exact Or.inl ⟨rfl, rfl⟩
  | act f k =>
    have hl := (List.getElem?_eq_some_iff.1 hp).1
    simp only [Service.step, hp, List.getElem?_set_self hl] at hq ⊢
    cases hq
    exact Or.inr ⟨f, k, rfl, rfl, rfl⟩

theorem step_other {c : Conf σ ε α ρ} {i : ℕ} {r : ρ} {p q : Prog σ ε α} {a : Act ρ η}
    (hp : c.procs[i]? = some (r, p)) (hq : (S.step c a).procs[i]? = some (r, q))
    (ha : a ≠ .act i) : q = p := by
  rcases step_proc (S := S) hp a with hp' | ⟨f, k, -, ha', -⟩
  · cases hq.symm.trans hp'
    rfl
  · exact absurd ha' ha

/-- The next transition of a run keeps what the handlers rely on. -/
theorem Sound.next_rely (hS : S.Sound R G I) (hR : ∀ s, I s → R s s) {s₀ : σ} (h₀ : I s₀)
    {tr : List (Trans S)} {c : Conf σ ε α ρ} (h : S.Run ⟨s₀, []⟩ tr c) (a : Act ρ η) :
    R c.db (S.step c a).db :=
  hS.rely (t := ⟨c, a⟩) hR (hS.inv h₀ h).1 (hS.cases h₀ (h.step a) List.mem_cons_self)

theorem Unwritten.cons {tr : List (Trans S)} {i : ℕ} {r : ρ} (h : Unwritten tr i r) {t : Trans S}
    (ht : t.By i r → t.post.db = t.pre.db) : Unwritten (t :: tr) i r := by
  intro t' ht' hby
  rcases List.mem_cons.1 ht' with rfl | ht'
  · exact ht hby
  · exact h t' ht' hby

/-- **A handler that has written is bound to end in `fin`**, if the program of
    every request is after each write. -/
theorem Run.afterWrite (hS : S.Sound R G I) (hR : ∀ s, I s → R s s) {s₀ : σ} (h₀ : I s₀)
    {fin : ρ → Except ε α → Prop} (hW : ∀ r, AfterWrite (Bound R (fin r)) (S.handler r))
    {tr : List (Trans S)} {c : Conf σ ε α ρ} (h : S.Run ⟨s₀, []⟩ tr c) :
    ∀ i r p, c.procs[i]? = some (r, p) →
      (Unwritten tr i r ∧ AfterWrite (Bound R (fin r)) p) ∨ Bound R (fin r) p c.db := by
  induction h with
  | init => intro i r p hi; simp at hi
  | @step tr c h a ih =>
    intro i r p hi
    rcases step_arrived hi with ⟨rfl, rfl, rfl⟩ | ⟨p', hi'⟩
    · refine Or.inl ⟨Unwritten.cons (fun t ht hby => absurd hby (h.not_by r t ht)) ?_, hW r⟩
      intro hby
      cases hby.1
    have hrely := hS.next_rely hR h₀ h a
    by_cases ha : a = .act i
    · subst ha
      rcases step_own hi' hi with ⟨hdb, rfl⟩ | ⟨f, k, rfl, hdb, rfl⟩
      · rw [hdb]
        exact (ih i r _ hi').imp_left fun hu => ⟨hu.1.cons fun _ => hdb, hu.2⟩
      · rcases ih i r _ hi' with ⟨hu, hw⟩ | hb
        · by_cases hf : f c.db = c.db
          · exact Or.inl ⟨hu.cons fun _ => hdb.trans hf, (hw c.db).2⟩
          · exact Or.inr (hdb ▸ (hw c.db).1 hf)
        · exact Or.inr (hdb ▸ hb.act (hdb ▸ hrely))
    · obtain rfl := step_other hi' hi ha
      rcases ih i r _ hi' with ⟨hu, hw⟩ | hb
      · exact Or.inl ⟨hu.cons fun hby => absurd hby.1 ha, hw⟩
      · exact Or.inr (hb.mono hrely)

/-- **What a handler finds when it first acts.**  If the program of a request,
    as long as `A` holds, ends only in `fin`, then so does its handler unless the
    store did not satisfy `A` when it first acted. -/
theorem Run.first (hS : S.Sound R G I) (hR : ∀ s, I s → R s s) {s₀ : σ} (h₀ : I s₀)
    {A : ρ → σ → Prop} {fin : ρ → Except ε α → Prop} (hA : ∀ r, Stable R (A r))
    (hF : ∀ r, EndsIn (A r) (fin r) (S.handler r))
    {tr : List (Trans S)} {c : Conf σ ε α ρ} (h : S.Run ⟨s₀, []⟩ tr c) :
    ∀ i r p, c.procs[i]? = some (r, p) →
      (EndsIn (A r) (fin r) p ∧ ((∀ t ∈ tr, ¬ t.By i r) ∨ A r c.db)) ∨
        ∃ tr₂ t tr₁, tr = tr₂ ++ t :: tr₁ ∧ t.By i r ∧ (∀ t' ∈ tr₁, ¬ t'.By i r) ∧
          ¬ A r t.pre.db := by
  induction h with
  | init => intro i r p hi; simp at hi
  | @step tr c h a ih =>
    intro i r p hi
    rcases step_arrived hi with ⟨rfl, rfl, rfl⟩ | ⟨p', hi'⟩
    · refine Or.inl ⟨hF r, Or.inl fun t ht hby => ?_⟩
      rcases List.mem_cons.1 ht with rfl | ht
      · cases hby.1
      · exact absurd hby (h.not_by r t ht)
    rcases ih i r p' hi' with ⟨hp', hnone⟩ | ⟨tr₂, t, tr₁, rfl, hfirst⟩
    · have hrely := hS.next_rely hR h₀ h a
      by_cases ha : a = .act i
      · subst ha
        by_cases hAc : A r c.db
        · refine Or.inl ⟨?_, Or.inr (hA r _ _ hAc hrely)⟩
          rcases step_own hi' hi with ⟨-, rfl⟩ | ⟨f, k, rfl, -, rfl⟩
          · exact hp'
          · exact hp'.done hAc
        · have hby : (⟨c, .act i⟩ : Trans S).By i r := ⟨rfl, by rw [hi']; rfl⟩
          exact Or.inr ⟨[], _, tr, rfl, hby, hnone.resolve_right hAc, hAc⟩
      · obtain rfl := step_other hi' hi ha
        refine Or.inl ⟨hp', hnone.imp (fun hnone t ht hby => ?_) fun hAc => hA r _ _ hAc hrely⟩
        rcases List.mem_cons.1 ht with rfl | ht
        · exact ha hby.1
        · exact hnone t ht hby
    · exact Or.inr ⟨⟨c, a⟩ :: tr₂, t, tr₁, rfl, hfirst⟩

/-! ## One request after another -/

/-- The store `s` is reached from `s₀` by handling requests one after another,
    each satisfying `P` in the store it meets. -/
inductive Served (S : Service σ ε α ρ η) (P : σ → ρ → Prop) (s₀ : σ) : σ → Prop
  | init : Served S P s₀ s₀
  | serve {s} : Served S P s₀ s → ∀ r, P s r → Served S P s₀ ((S.handler r).exec s).2

/-- A list of requests handled one after another, each acceptable in any store. -/
theorem Served.foldl {P : σ → ρ → Prop} {s₀ s : σ} (h : Served S P s₀ s) (rs : List ρ)
    (hr : ∀ r ∈ rs, ∀ s, P s r) :
    Served S P s₀ (rs.foldl (fun s r => ((S.handler r).exec s).2) s) := by
  induction rs generalizing s with
  | nil => exact h
  | cons r rs ih =>
    exact ih (h.serve r (hr r List.mem_cons_self s)) fun r' hr' =>
      hr r' (List.mem_cons_of_mem _ hr')

/-- A handler with a given outcome. -/
def done : Except ε α → Prog σ ε α
  | .ok a => .ret a
  | .error e => .throw e

/-- A handler may run to its end with nothing in between. -/
theorem run_solo (p : Prog σ ε α) {c : Conf σ ε α ρ} {i : ℕ} {r : ρ}
    (hi : c.procs[i]? = some (r, p)) : ∃ tr c', S.Run c tr c' ∧ c'.db = (p.exec c.db).2 ∧
      c'.procs = c.procs.set i (r, done (p.exec c.db).1) := by
  obtain ⟨hl, he⟩ := List.getElem?_eq_some_iff.1 hi
  induction p generalizing c with
  | ret | throw => exact ⟨[], c, .init, rfl, by simp [done, ← he]⟩
  | act f k ih =>
    have hs : S.step c (.act i) = ⟨f c.db, c.procs.set i (r, k c.db)⟩ := by
      simp only [Service.step, hi]
    obtain ⟨tr, c', h, h1, h2⟩ := ih c.db (c := S.step c (.act i))
      (by rw [hs]; exact List.getElem?_set_self hl) (by rw [hs]; simpa using hl) (by simp [hs])
    refine ⟨_, c', (Run.init.step (.act i)).append h, ?_, ?_⟩
    · rw [h1, hs]; rfl
    · rw [h2, hs]; simp

/-- **Handling a request alone is a run.** -/
theorem run_exec (c : Conf σ ε α ρ) (r : ρ) : ∃ tr c', S.Run c tr c' ∧
    c'.db = ((S.handler r).exec c.db).2 ∧
    c'.procs = c.procs ++ [(r, done ((S.handler r).exec c.db).1)] := by
  obtain ⟨tr, c', h, h1, h2⟩ := run_solo (S := S) (S.handler r) (c := S.step c (.arrive r))
    (i := c.procs.length) (r := r) (by simp [Service.step])
  refine ⟨_, c', (Run.init.step (.arrive r)).append h, h1, ?_⟩
  rw [h2]
  simp [Service.step]

/-- What requests handled one after another reach is reached by a run. -/
theorem Served.run {P : σ → ρ → Prop} {s₀ s : σ} (h : Served S P s₀ s) :
    ∃ tr c, S.Run ⟨s₀, []⟩ tr c ∧ c.db = s := by
  induction h with
  | init => exact ⟨[], _, .init, rfl⟩
  | serve _ r _ ih =>
    obtain ⟨tr, c, h, rfl⟩ := ih
    obtain ⟨tr', c', h', he, -⟩ := run_exec (S := S) c r
    exact ⟨_, c', h.append h', he⟩

end Service

end Interleave
