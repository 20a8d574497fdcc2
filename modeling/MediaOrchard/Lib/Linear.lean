/-
  Linearization points.

  An operation on an abstract state is implemented by a program of several actions.
  The program is linear if one of its actions, the point, decides the operation:
  there it takes effect in the abstract state or is refused, its other actions leave
  that state alone, and it returns if and only if it took effect.

  * `Linear R E pt p`: the actions of `p` before its point are in `E`; the point is in
    `pt true` or `pt false`, and behind it `p` is `Settled`;
  * `Linear.read`, `Linear.atomic`, `Linear.bind`: a read or an action that may be the
    point, and what follows it, which may write what is no part of the state;
  * `Run.linear`: in a run every handler has passed its point, once, or has
    not and can still do so.
-/
import MediaOrchard.Lib.Service

namespace Interleave

variable {σ ε α β ρ η : Type}

namespace Prog

variable {R E : σ → σ → Prop} {pt : Bool → σ → σ → Prop}

/-- The program returns, whatever it sees. -/
abbrev Returns (p : Prog σ ε α) : Prop := EndsIn (fun _ => True) (fun o => o.isOk = true) p

theorem Returns.ret (a : α) : Returns (ret a : Prog σ ε α) := rfl

theorem Returns.read (g : σ → β) : Returns (Prog.read g : Prog σ ε β) := fun _ _ => Or.inr rfl

theorem Returns.atomic (f : σ → β × σ) : Returns (Prog.atomic f : Prog σ ε β) :=
  fun _ _ => Or.inr rfl

theorem Returns.bind {p : Prog σ ε α} {g : α → Prog σ ε β} (hp : Returns p)
    (hg : ∀ a, Returns (g a)) : Returns (p.bind g) :=
  EndsIn.bind hp (fun _ he => nomatch he) fun a _ => hg a

theorem Acts.done {f : σ → σ} {k : σ → Prog σ ε α} (h : Acts E (act f k)) (s : σ) :
    E s (f s) ∧ Acts E (k s) := by
  obtain ⟨hE, P', hP', hs, hk⟩ := h s trivial
  exact ⟨hE, hk.pre fun s' _ => hP' _ s' hs trivial⟩

/-- Behind its point, the program returns iff `b`, and its actions are in `E`. -/
structure Settled (R E : σ → σ → Prop) (b : Bool) (p : Prog σ ε α) (s : σ) : Prop where
  ends : Bound R (fun o => o.isOk = b) p s
  acts : Acts E p

/-- The program has its point before it. -/
def Linear (R E : σ → σ → Prop) (pt : Bool → σ → σ → Prop) : Prog σ ε α → Prop
  | ret _ => False
  | throw _ => False
  | act f k => ∀ s, (E s (f s) ∧ Linear R E pt (k s)) ∨
      ∃ b, pt b s (f s) ∧ Settled R E b (k s) (f s)

theorem Settled.throw (e : ε) (s : σ) : Settled R E false (Prog.throw e : Prog σ ε α) s := by
  have hends : EndsIn (fun _ : σ => True) (fun o => o.isOk = false) (Prog.throw e : Prog σ ε α) :=
    rfl
  exact ⟨hends.bound s, trivial⟩

theorem Settled.mono {b : Bool} {p : Prog σ ε α} {s s' : σ} (h : Settled R E b p s)
    (hR : R s s') : Settled R E b p s' := ⟨h.ends.mono hR, h.acts⟩

theorem Settled.act {b : Bool} {f : σ → σ} {k : σ → Prog σ ε α} {s : σ}
    (h : Settled R E b (act f k) s) (hR : R s (f s)) : Settled R E b (k s) (f s) :=
  ⟨h.ends.act hR, (h.acts.done s).2⟩

/-- A program that ends here returns iff `b`. -/
theorem Settled.outcome {b : Bool} {o : Except ε α} {s : σ}
    (h : Settled R E b (Service.done o) s) : o.isOk = b := by
  obtain ⟨A, -, -, hends⟩ := h.ends
  cases o <;> exact hends

theorem Settled.bind {b : Bool} {p : Prog σ ε α} {g : α → Prog σ ε β} {s : σ}
    (h : Settled R E b p s) (hg : ∀ a, Returns (g a)) (ha : ∀ a, Acts E (g a)) :
    Settled R E b (p.bind g) s := by
  obtain ⟨A, hA, hs, hends⟩ := h.ends
  refine ⟨⟨A, hA, hs, EndsIn.bind hends (fun e he => he) fun a hb => ?_⟩,
    Spec.bind h.acts fun a => ha a⟩
  have hb : true = b := hb
  subst hb
  exact (hg a).anti fun _ _ => trivial

/-- **The rule for sequential composition**: the point lies in the first part. -/
theorem Linear.bind {p : Prog σ ε α} {g : α → Prog σ ε β} (h : Linear R E pt p)
    (hg : ∀ a, Returns (g a)) (ha : ∀ a, Acts E (g a)) : Linear R E pt (p.bind g) := by
  induction p with
  | ret | throw => exact h.elim
  | act f k ih =>
    intro s
    rcases h s with ⟨hE, hk⟩ | ⟨b, hpt, hsettled⟩
    · exact Or.inl ⟨hE, ih s hk⟩
    · exact Or.inr ⟨b, hpt, hsettled.bind hg ha⟩

/-- An action may be the point. -/
theorem Linear.atomic {f : σ → β × σ} {g : β → Prog σ ε α}
    (h : ∀ s, ∃ b, pt b s (f s).2 ∧ Settled R E b (g (f s).1) (f s).2) :
    Linear R E pt ((Prog.atomic f).bind g) := fun s => Or.inr (h s)

/-- A read may be the point, or the point comes later. -/
theorem Linear.read {g : σ → β} {h : β → Prog σ ε α} (hE : ∀ s, E s s)
    (hk : ∀ s, Linear R E pt (h (g s)) ∨ ∃ b, pt b s s ∧ Settled R E b (h (g s)) s) :
    Linear R E pt ((Prog.read g).bind h) := fun s => (hk s).imp_left fun hl => ⟨hE s, hl⟩

end Prog

open Prog

namespace Service
variable {S : Service σ ε α ρ η} {R E : σ → σ → Prop} {G : ρ → σ → σ → Prop} {I : σ → Prop}

/-- The actions of handler `i` in these transitions are in `E`. -/
def Quietly (E : σ → σ → Prop) (tr : List (Trans S)) (i : ℕ) (r : ρ) : Prop :=
  ∀ t ∈ tr, t.By i r → E t.pre.db t.post.db

theorem Quietly.cons {tr : List (Trans S)} {i : ℕ} {r : ρ} {t : Trans S} (h : Quietly E tr i r)
    (ht : t.By i r → E t.pre.db t.post.db) : Quietly E (t :: tr) i r := by
  intro t' ht' hby
  rcases List.mem_cons.1 ht' with rfl | ht'
  · exact ht hby
  · exact h t' ht' hby

/-- Handler `i` has passed its point, and has answered or will answer `b`. -/
def Passed (R E : σ → σ → Prop) (pt : Bool → σ → σ → Prop) (tr : List (Trans S)) (i : ℕ) (r : ρ)
    (p : Prog σ ε α) (s : σ) : Prop :=
  ∃ b tr₂ t tr₁, tr = tr₂ ++ t :: tr₁ ∧ t.By i r ∧ pt b t.pre.db t.post.db ∧
    Quietly E (tr₂ ++ tr₁) i r ∧ Settled R E b p s

/-- **One point for each handler.**  If the program of every request in `Q` is
    linear, then in a run its handler has its point before it, or has passed it
    once and is settled. -/
theorem Run.linear (hS : S.Sound R G I) (hR : ∀ s, I s → R s s) (hE : ∀ s, E s s) {s₀ : σ}
    (h₀ : I s₀) {Q : ρ → Prop} {pt : ρ → Bool → σ → σ → Prop}
    (hL : ∀ r, Q r → Linear R E (pt r) (S.handler r)) {tr : List (Trans S)} {c : Conf σ ε α ρ}
    (h : S.Run ⟨s₀, []⟩ tr c) : ∀ i r p, Q r → c.procs[i]? = some (r, p) →
      (Quietly E tr i r ∧ Linear R E (pt r) p) ∨ Passed R E (pt r) tr i r p c.db := by
  induction h with
  | init => intro i r p hq hi; simp at hi
  | @step tr c h a ih =>
    intro i r p hq hi
    rcases step_arrived hi with ⟨rfl, rfl, rfl⟩ | ⟨p', hi'⟩
    · refine Or.inl ⟨Quietly.cons (fun t ht hby => absurd hby (h.not_by r t ht)) ?_, hL r hq⟩
      intro hby
      cases hby.1
    have hrely := hS.next_rely hR h₀ h a
    -- a handler that has passed its point stays behind it
    have hpassed : ∀ {q : Prog σ ε α}, Passed R E (pt r) tr i r q c.db →
        (∀ b, Settled R E b q c.db → Settled R E b p (S.step c a).db ∧
          ((⟨c, a⟩ : Trans S).By i r → E c.db (S.step c a).db)) →
        Passed R E (pt r) (⟨c, a⟩ :: tr) i r p (S.step c a).db := by
      rintro q ⟨b, tr₂, t, tr₁, rfl, hby, hpt, hquiet, hsettled⟩ hnext
      obtain ⟨hp, hown⟩ := hnext b hsettled
      exact ⟨b, ⟨c, a⟩ :: tr₂, t, tr₁, rfl, hby, hpt, hquiet.cons hown, hp⟩
    by_cases ha : a = .act i
    · subst ha
      have hby : (⟨c, .act i⟩ : Trans S).By i r := ⟨rfl, by rw [hi']; rfl⟩
      rcases step_own hi' hi with ⟨hdb, rfl⟩ | ⟨f, k, rfl, hdb, rfl⟩
      · have hsame : E c.db (S.step c (.act i)).db := by
          rw [hdb]
          exact hE _
        rcases ih i r _ hq hi' with ⟨hquiet, hp⟩ | hp
        · exact Or.inl ⟨hquiet.cons fun _ => hsame, hp⟩
        · exact Or.inr (hpassed hp fun b hb => ⟨by rw [hdb]; exact hb, fun _ => hsame⟩)
      · rcases ih i r _ hq hi' with ⟨hquiet, hp⟩ | hp
        · rcases hp c.db with ⟨hact, hk⟩ | ⟨b, hpt, hsettled⟩
          · exact Or.inl ⟨hquiet.cons fun _ => by simpa only [Trans.post, hdb] using hact, hk⟩
          · refine Or.inr ⟨b, [], _, tr, rfl, hby, ?_, hquiet, by rw [hdb]; exact hsettled⟩
            simpa only [Trans.post, hdb] using hpt
        · refine Or.inr (hpassed hp fun b hb => ⟨?_, fun _ => ?_⟩)
          · rw [hdb]
            exact hb.act (hdb ▸ hrely)
          · rw [hdb]
            exact (hb.acts.done c.db).1
    · obtain rfl := step_other hi' hi ha
      have hother : ¬ (⟨c, a⟩ : Trans S).By i r := fun hby => ha hby.1
      rcases ih i r _ hq hi' with ⟨hquiet, hp⟩ | hp
      · exact Or.inl ⟨hquiet.cons fun hby => absurd hby hother, hp⟩
      · exact Or.inr (hpassed hp fun b hb => ⟨hb.mono hrely, fun hby => absurd hby hother⟩)

end Service

end Interleave
