/-
  Clients of a service, over a network that delays and loses.

  A client is a program that calls the service, runs local operations and ends.
  A call is a message on the network: it is handed to the service at most once,
  at any time or never, and the client may give up waiting for the answer and
  see an exception at any time, whatever becomes of the message.

  * `Process`: a client at the point it has reached, with the log of its answers
    and of its local operations, latest first;
  * `World.step`: one move of the service, the network or a client;
  * `Client.Follows`, `Process.Reached.obeys`: a discipline on calls and
    operations that refers to the log, checked on the program;
  * `World.Inv`: messages, handlers and logs agree in every reachable world.
-/
import MediaOrchard.Lib.Service

namespace Interleave

/-! ## Client programs -/

/-- Programs that call the service with messages `μ` answered by `β`, run local
    operations `ι` with results `ο`, and may raise `ε`. -/
inductive Client (μ β ι ο ε α : Type) where
  | ret (a : α)
  | raise (e : ε)
  | call (b : μ) (k : Except ε β → Client μ β ι ο ε α)
  | run (i : ι) (k : Except ε ο → Client μ β ι ο ε α)

variable {μ β ι ο ε α α' : Type}

namespace Client

/-- Sequential composition; an exception skips the rest. -/
def bind : Client μ β ι ο ε α → (α → Client μ β ι ο ε α') → Client μ β ι ο ε α'
  | ret a, g => g a
  | raise e, _ => raise e
  | call b k, g => call b fun r => (k r).bind g
  | run i k, g => run i fun r => (k r).bind g

instance : Monad (Client μ β ι ο ε) where
  pure := ret
  bind := bind

/-- Handle the exceptions of a program. -/
def tryCatch : Client μ β ι ο ε α → (ε → Client μ β ι ο ε α) → Client μ β ι ο ε α
  | ret a, _ => ret a
  | raise e, h => h e
  | call b k, h => call b fun r => (k r).tryCatch h
  | run i k, h => run i fun r => (k r).tryCatch h

/-- Raise the error of an `Except` computation. -/
def liftExcept : Except ε α → Client μ β ι ο ε α
  | .ok a => ret a
  | .error e => raise e

/-- Call the service. -/
def post (b : μ) : Client μ β ι ο ε β := call b liftExcept

/-- Run a local operation. -/
def perform (i : ι) : Client μ β ι ο ε ο := run i liftExcept

end Client

/-! ## Processes -/

/-- What a client has seen: an answer, or an exception in its place, to message
    `m`; the start and the end of a local operation. -/
inductive Event (μ β ι ο ε : Type) where
  | answered (m : ℕ) (b : μ) (a : Except ε β)
  | invoked (i : ι)
  | returned (i : ι) (o : Except ε ο)

/-- What a client waits for. -/
inductive Wait where
  | idle
  | reply (m : ℕ)
  | busy

/-- A client at the point it has reached. -/
structure Process (μ β ι ο ε : Type) where
  prog : Client μ β ι ο ε Unit
  wait : Wait
  log : List (Event μ β ι ο ε)

namespace Process

/-- A client that has just started. -/
def start (p : Client μ β ι ο ε Unit) : Process μ β ι ο ε := ⟨p, .idle, []⟩

/-- The moves of a client. -/
inductive Next : Process μ β ι ο ε → Process μ β ι ο ε → Prop
  | post {b k log} (m) : Next ⟨.call b k, .idle, log⟩ ⟨.call b k, .reply m, log⟩
  | answer {b k m log} (a) :
      Next ⟨.call b k, .reply m, log⟩ ⟨k a, .idle, .answered m b a :: log⟩
  | invoke {i k log} : Next ⟨.run i k, .idle, log⟩ ⟨.run i k, .busy, .invoked i :: log⟩
  | finish {i k log} (o) :
      Next ⟨.run i k, .busy, log⟩ ⟨k o, .idle, .returned i o :: log⟩

/-- The process is reached by the program `p₀`. -/
inductive Reached (p₀ : Client μ β ι ο ε Unit) : Process μ β ι ο ε → Prop
  | start : Reached p₀ (start p₀)
  | next {p p'} : Reached p₀ p → Next p p' → Reached p₀ p'

/-- The messages posted so far, with their numbers. -/
def posted (p : Process μ β ι ο ε) : List (ℕ × μ) :=
  (match p.wait, p.prog with
    | .reply m, .call b _ => [(m, b)]
    | _, _ => []) ++
  p.log.filterMap fun
    | .answered m b _ => some (m, b)
    | _ => none

/-- The operations satisfying `q` that were started. -/
def invocations (q : ι → Bool) (p : Process μ β ι ο ε) : List ι :=
  p.log.filterMap fun
    | .invoked i => if q i then some i else none
    | _ => none

/-- The results of the operations satisfying `q`. -/
def results (q : ι → Bool) (p : Process μ β ι ο ε) : List (Except ε ο) :=
  p.log.filterMap fun
    | .returned i o => if q i then some o else none
    | _ => none

/-- At most the operation under way has no result yet. -/
theorem Reached.results_le {p₀ : Client μ β ι ο ε Unit} {p : Process μ β ι ο ε}
    (h : Reached p₀ p) (q : ι → Bool) : (p.results q).length ≤ (p.invocations q).length := by
  have key : (p.invocations q).length = (p.results q).length +
      match p.wait, p.prog with
        | .busy, .run i _ => if q i then 1 else 0
        | _, _ => 0 := by
    induction h with
    | start => rfl
    | next _ hn ih =>
      cases hn with
      | post | answer => exact ih
      | @invoke i | @finish i =>
        by_cases hq : q i <;>
          simp only [invocations, results, List.filterMap_cons, hq, if_true, Bool.false_eq_true,
            if_false, List.length_cons] at ih ⊢ <;> omega
  omega

end Process

/-! ## A discipline on programs -/

/-- Every call of the program satisfies `C` of the log at that moment, every
    local operation `R`. -/
def Client.Follows (C : List (Event μ β ι ο ε) → μ → Prop) (R : List (Event μ β ι ο ε) → ι → Prop) :
    List (Event μ β ι ο ε) → Client μ β ι ο ε α → Prop
  | _, ret _ => True
  | _, raise _ => True
  | log, call b k => C log b ∧ ∀ m a, Follows C R (.answered m b a :: log) (k a)
  | log, run i k => R log i ∧ ∀ o, Follows C R (.returned i o :: .invoked i :: log) (k o)

/-- Every call and operation of the log satisfied `C` or `R` when it was made. -/
def Obeys (C : List (Event μ β ι ο ε) → μ → Prop) (R : List (Event μ β ι ο ε) → ι → Prop) :
    List (Event μ β ι ο ε) → Prop
  | [] => True
  | .answered _ b _ :: log => C log b ∧ Obeys C R log
  | .invoked i :: log => R log i ∧ Obeys C R log
  | .returned _ _ :: log => Obeys C R log

theorem Obeys.imp {C C' : List (Event μ β ι ο ε) → μ → Prop}
    {R R' : List (Event μ β ι ο ε) → ι → Prop} {log : List (Event μ β ι ο ε)} (h : Obeys C R log)
    (hC : ∀ log b, C log b → C' log b) (hR : ∀ log i, R log i → R' log i) : Obeys C' R' log := by
  induction log with
  | nil => trivial
  | cons e log ih =>
    cases e with
    | answered => exact ⟨hC _ _ h.1, ih h.2⟩
    | invoked => exact ⟨hR _ _ h.1, ih h.2⟩
    | returned => exact ih h

section Discipline
variable {C : List (Event μ β ι ο ε) → μ → Prop} {R : List (Event μ β ι ο ε) → ι → Prop}

/-- **A program that follows a discipline leaves a log that obeys it.** -/
theorem Process.Reached.obeys {p₀ : Client μ β ι ο ε Unit} {p : Process μ β ι ο ε}
    (h : Reached p₀ p) (hf : p₀.Follows C R []) : Obeys C R p.log ∧
      match p.wait with
        | .busy => ∃ i k log, p.prog = .run i k ∧ p.log = .invoked i :: log ∧
            Client.Follows C R log p.prog
        | _ => Client.Follows C R p.log p.prog := by
  induction h with
  | start => exact ⟨trivial, hf⟩
  | next _ hn ih =>
    obtain ⟨ho, hw⟩ := ih
    cases hn with
    | post => exact ⟨ho, hw⟩
    | answer a => exact ⟨⟨hw.1, ho⟩, hw.2 _ a⟩
    | invoke => exact ⟨⟨hw.1, ho⟩, _, _, _, rfl, rfl, hw⟩
    | finish o =>
      obtain ⟨i, k, log, hp, rfl, hw⟩ := hw
      cases hp
      exact ⟨ho, hw.2 o⟩

theorem Obeys.answered {log : List (Event μ β ι ο ε)} (h : Obeys C R log)
    (hC : ∀ e log b, C log b → C (e :: log) b) {m : ℕ} {b : μ} {a : Except ε β}
    (hm : .answered m b a ∈ log) : C log b := by
  induction log with
  | nil => cases hm
  | cons e log ih =>
    rcases List.mem_cons.1 hm with rfl | htail
    · exact hC _ _ _ h.1
    · cases e with
      | answered | invoked => exact hC _ _ _ (ih h.2 htail)
      | returned => exact hC _ _ _ (ih h htail)

theorem Obeys.invoked {log : List (Event μ β ι ο ε)} (h : Obeys C R log)
    (hR : ∀ e log i, R log i → R (e :: log) i) {i : ι} (hi : .invoked i ∈ log) : R log i := by
  induction log with
  | nil => cases hi
  | cons e log ih =>
    rcases List.mem_cons.1 hi with rfl | htail
    · exact hR _ _ _ h.1
    · cases e with
      | answered | invoked => exact hR _ _ _ (ih h.2 htail)
      | returned => exact hR _ _ _ (ih h htail)

/-- What holds of a call whatever is logged later holds of every message posted. -/
theorem Process.Reached.posted {p₀ : Client μ β ι ο ε Unit} {p : Process μ β ι ο ε}
    (h : Reached p₀ p) (hf : p₀.Follows C R [])
    (hC : ∀ e log b, C log b → C (e :: log) b) {m : ℕ} {b : μ} (hm : (m, b) ∈ p.posted) :
    C p.log b := by
  obtain ⟨ho, hw⟩ := h.obeys hf
  rcases List.mem_append.1 hm with hm | hm
  · split at hm
    · rename_i hwait hprog
      rw [hwait, hprog] at hw
      cases List.mem_singleton.1 hm
      exact hw.1
    · cases hm
  · obtain ⟨e, he, hs⟩ := List.mem_filterMap.1 hm
    cases e with
    | answered m' b' a =>
      cases hs
      exact ho.answered hC he
    | invoked | returned => cases hs

/-- A program that runs an operation only while it has run none runs at most one. -/
theorem Obeys.invocations_le_one {p : Process μ β ι ο ε} (h : Obeys C R p.log)
    (hR : ∀ log i, R log i → ∀ j, .invoked j ∉ log) (q : ι → Bool) :
    (p.invocations q).length ≤ 1 := by
  obtain ⟨prog, wait, log⟩ := p
  unfold Process.invocations
  dsimp only at h ⊢
  induction log with
  | nil => exact Nat.zero_le 1
  | cons e log ih =>
    cases e with
    | answered => exact ih h.2
    | returned => exact ih h
    | invoked i =>
      have hnil : log.filterMap (fun
          | .invoked i => if q i then some i else none
          | _ => none) = [] := by
        rw [List.filterMap_eq_nil_iff]
        intro e he
        cases e with
        | invoked j => exact absurd he (hR _ _ h.1 j)
        | answered | returned => rfl
      rw [List.filterMap_cons, hnil]
      dsimp only
      split_ifs <;> simp

end Discipline

/-! ## Worlds -/

/-- A message on the network: who sent it, and the handler it was given to. -/
structure Message (μ : Type) where
  sender : ℕ
  body : μ
  handler : Option ℕ := none

/-- The outcome of a handler that has ended. -/
def outcome {σ δ : Type} : Prog σ δ α → Option (Except δ α)
  | .ret a => some (.ok a)
  | .throw e => some (.error e)
  | .act _ _ => none

variable {σ δ ρ η κ ξ : Type} {S : Service σ δ α ρ η}

/-- What clients of the service `S` run, how their messages become requests and
    outcomes their answers, and which requests come from elsewhere. -/
structure System (S : Service σ δ α ρ η) (μ β ι ο ε κ ξ : Type) where
  program : ξ → Client μ β ι ο ε Unit
  wire : μ → κ → ρ
  answer : Except δ α → Except ε β
  foreign : ρ → Bool

/-- The service, the messages sent so far and the clients started so far. -/
structure World (N : System S μ β ι ο ε κ ξ) where
  conf : Conf σ δ α ρ
  msgs : List (Message μ)
  procs : List (Process μ β ι ο ε)

/-- A move: an action of the service or of its environment, the start of a
    client, the posting and the delivery of a message, the receipt of an answer,
    the loss of one, the start and the end of a local operation. -/
inductive Move (ρ η κ ξ ο ε : Type) where
  | service (a : Act ρ η)
  | spawn (x : ξ)
  | post (c : ℕ)
  | deliver (m : ℕ) (x : κ)
  | receive (c : ℕ)
  | lose (c : ℕ) (e : ε)
  | invoke (c : ℕ)
  | finish (c : ℕ) (o : Except ε ο)

namespace World
variable {N : System S μ β ι ο ε κ ξ}

/-- Requests arrive by themselves only from elsewhere. -/
def admits (N : System S μ β ι ο ε κ ξ) : Act ρ η → Bool
  | .arrive r => N.foreign r
  | _ => true

/-- The answer to message `m`, once its handler has ended. -/
def reply? (w : World N) (m : ℕ) : Option (Except ε β) :=
  w.msgs[m]?.bind fun msg => msg.handler.bind fun i => w.conf.procs[i]?.bind fun q =>
    (outcome q.2).map N.answer

/-- The world after a move; a move that is not possible changes nothing. -/
def step (w : World N) : Move ρ η κ ξ ο ε → World N
  | .service a => if admits N a then { w with conf := S.step w.conf a } else w
  | .spawn x => { w with procs := w.procs ++ [.start (N.program x)] }
  | .post c => match w.procs[c]? with
    | some ⟨.call b k, .idle, log⟩ => { w with
        msgs := w.msgs ++ [{ sender := c, body := b }]
        procs := w.procs.set c ⟨.call b k, .reply w.msgs.length, log⟩ }
    | _ => w
  | .deliver m x => match w.msgs[m]? with
    | some ⟨c, b, none⟩ => { w with
        conf := S.step w.conf (.arrive (N.wire b x))
        msgs := w.msgs.set m ⟨c, b, some w.conf.procs.length⟩ }
    | _ => w
  | .receive c => match w.procs[c]? with
    | some ⟨.call b k, .reply m, log⟩ => match w.reply? m with
      | some a => { w with procs := w.procs.set c ⟨k a, .idle, .answered m b a :: log⟩ }
      | none => w
    | _ => w
  | .lose c e => match w.procs[c]? with
    | some ⟨.call b k, .reply m, log⟩ =>
      { w with procs := w.procs.set c ⟨k (.error e), .idle, .answered m b (.error e) :: log⟩ }
    | _ => w
  | .invoke c => match w.procs[c]? with
    | some ⟨.run i k, .idle, log⟩ =>
      { w with procs := w.procs.set c ⟨.run i k, .busy, .invoked i :: log⟩ }
    | _ => w
  | .finish c o => match w.procs[c]? with
    | some ⟨.run i k, .busy, log⟩ =>
      { w with procs := w.procs.set c ⟨k o, .idle, .returned i o :: log⟩ }
    | _ => w

/-- A world without messages and clients. -/
def init (N : System S μ β ι ο ε κ ξ) (s₀ : σ) : World N := ⟨⟨s₀, []⟩, [], []⟩

/-- The worlds reached from `w₀` by any moves in any order. -/
inductive Reach (w₀ : World N) : World N → Prop
  | refl : Reach w₀ w₀
  | step {w} : Reach w₀ w → ∀ a, Reach w₀ (w.step a)

/-- The world after a list of moves, first move first. -/
def after (w : World N) (moves : List (Move ρ η κ ξ ο ε)) : World N := moves.foldl step w

theorem reach_after {w₀ w : World N} (h : Reach w₀ w) (moves : List (Move ρ η κ ξ ο ε)) :
    Reach w₀ (w.after moves) := by
  induction moves generalizing w with
  | nil => exact h
  | cons a moves ih => exact ih (h.step a)

/-- The operations satisfying `q` that were started anywhere. -/
def invocations (q : ι → Bool) (w : World N) : List ι := w.procs.flatMap (·.invocations q)

/-- The results of the operations satisfying `q`. -/
def results (q : ι → Bool) (w : World N) : List (Except ε ο) := w.procs.flatMap (·.results q)

/-- What one move does. -/
inductive Moved (w : World N) : World N → Prop
  | same : Moved w w
  | service (a) (ha : admits N a) : Moved w { w with conf := S.step w.conf a }
  | spawn (x) : Moved w { w with procs := w.procs ++ [.start (N.program x)] }
  | post {c b k log} (hc : w.procs[c]? = some ⟨.call b k, .idle, log⟩) : Moved w { w with
      msgs := w.msgs ++ [⟨c, b, none⟩]
      procs := w.procs.set c ⟨.call b k, .reply w.msgs.length, log⟩ }
  | deliver {m c b} (x) (hm : w.msgs[m]? = some ⟨c, b, none⟩) : Moved w { w with
      conf := S.step w.conf (.arrive (N.wire b x))
      msgs := w.msgs.set m ⟨c, b, some w.conf.procs.length⟩ }
  | process {c p p'} (hc : w.procs[c]? = some p) (hn : Process.Next p p')
      (hp : p'.posted = p.posted)
      (ha : ∀ m b v, .answered m b (.ok v) ∈ p'.log →
        .answered m b (.ok v) ∈ p.log ∨ w.reply? m = some (.ok v)) :
      Moved w { w with procs := w.procs.set c p' }

theorem moved_step (w : World N) (a : Move ρ η κ ξ ο ε) : Moved w (w.step a) := by
  cases a with
  | service a =>
    dsimp only [step]
    split_ifs with h
    exacts [.service a h, .same]
  | spawn x => exact .spawn x
  | post c =>
    dsimp only [step]
    split
    · exact .post ‹_›
    · exact .same
  | deliver m x =>
    dsimp only [step]
    split
    · exact .deliver x ‹_›
    · exact .same
  | receive c =>
    dsimp only [step]
    split
    · rename_i b k m log hc
      split
      · rename_i a ha
        refine .process hc (.answer a) rfl fun m' b' v hv => ?_
        rcases List.mem_cons.1 hv with hv | hv
        · cases hv
          exact Or.inr ha
        · exact Or.inl hv
      · exact .same
    · exact .same
  | lose c e =>
    dsimp only [step]
    split
    · refine .process ‹_› (.answer _) rfl fun m' b' v hv => ?_
      rcases List.mem_cons.1 hv with hv | hv
      · cases hv
      · exact Or.inl hv
    · exact .same
  | invoke c =>
    dsimp only [step]
    split
    · refine .process ‹_› .invoke rfl fun m' b' v hv => ?_
      rcases List.mem_cons.1 hv with hv | hv
      · cases hv
      · exact Or.inl hv
    · exact .same
  | finish c o =>
    dsimp only [step]
    split
    · refine .process ‹_› (.finish o) rfl fun m' b' v hv => ?_
      rcases List.mem_cons.1 hv with hv | hv
      · cases hv
      · exact Or.inl hv
    · exact .same

/-! ## The invariant of a world -/

theorem reply?_eq_some {w : World N} {m : ℕ} {a : Except ε β} : w.reply? m = some a ↔
    ∃ c b i r q o, w.msgs[m]? = some ⟨c, b, some i⟩ ∧ w.conf.procs[i]? = some (r, q) ∧
      outcome q = some o ∧ N.answer o = a := by
  simp only [reply?, Option.bind_eq_some_iff, Option.map_eq_some_iff]
  constructor
  · rintro ⟨⟨c, b, h⟩, hm, i, rfl, ⟨r, q⟩, hi, o, ho, ha⟩
    exact ⟨c, b, i, r, q, o, hm, hi, ho, ha⟩
  · rintro ⟨c, b, i, r, q, o, hm, hi, ho, ha⟩
    exact ⟨_, hm, i, rfl, _, hi, o, ho, ha⟩

/-- A handler keeps its request, and its outcome once it has ended. -/
theorem step_handler {c : Conf σ δ α ρ} {i : ℕ} {r : ρ} {p : Prog σ δ α}
    (hp : c.procs[i]? = some (r, p)) (a : Act ρ η) : ∃ p', (S.step c a).procs[i]? = some (r, p') ∧
      ∀ o, outcome p = some o → outcome p' = some o := by
  rcases Service.step_proc (S := S) hp a with hp' | ⟨f, k, rfl, -, -, hp'⟩
  · exact ⟨p, hp', fun _ ho => ho⟩
  · exact ⟨_, hp', nofun⟩

/-- Messages, handlers and logs agree. -/
structure Inv (s₀ : σ) (w : World N) : Prop where
  run : ∃ tr, S.Run ⟨s₀, []⟩ tr w.conf
  reached : ∀ (c : ℕ) p, w.procs[c]? = some p → ∃ x, p.Reached (N.program x)
  posted : ∀ (c m : ℕ) b, (∃ p, w.procs[c]? = some p ∧ (m, b) ∈ p.posted) ↔
    ∃ h, w.msgs[m]? = some ⟨c, b, h⟩
  handled : ∀ (m c : ℕ) b i, w.msgs[m]? = some ⟨c, b, some i⟩ →
    ∃ x p, w.conf.procs[i]? = some (N.wire b x, p)
  unique : ∀ (m m' c c' : ℕ) b b' i, w.msgs[m]? = some ⟨c, b, some i⟩ →
    w.msgs[m']? = some ⟨c', b', some i⟩ → m = m'
  origin : ∀ (i : ℕ) r p, w.conf.procs[i]? = some (r, p) →
    N.foreign r ∨ ∃ (m c : ℕ) (b : μ) (x : κ), w.msgs[m]? = some ⟨c, b, some i⟩ ∧ r = N.wire b x
  answered : ∀ (c : ℕ) p m b v, w.procs[c]? = some p → .answered m b (.ok v) ∈ p.log →
    w.reply? m = some (.ok v)

variable {s₀ : σ} {w : World N}

theorem Inv.init (N : System S μ β ι ο ε κ ξ) (s₀ : σ) : Inv s₀ (init N s₀) where
  run := ⟨[], .init⟩
  reached c p h := by simp [World.init] at h
  posted c m b := by simp [World.init]
  handled m c b i h := by simp [World.init] at h
  unique m m' c c' b b' i h := by simp [World.init] at h
  origin i r p h := by simp [World.init] at h
  answered c p m b v h := by simp [World.init] at h

theorem Inv.service (h : Inv s₀ w) {a : Act ρ η} (ha : admits N a) :
    Inv s₀ ({ w with conf := S.step w.conf a } : World N) where
  run := by
    obtain ⟨tr, hr⟩ := h.run
    exact ⟨_, hr.step a⟩
  reached := h.reached
  posted := h.posted
  handled m c b i hm := by
    obtain ⟨x, p, hp⟩ := h.handled m c b i hm
    obtain ⟨p', hp', -⟩ := step_handler (S := S) hp a
    exact ⟨x, p', hp'⟩
  unique := h.unique
  origin i r p hp := by
    rcases Service.step_arrived hp with ⟨rfl, -, -⟩ | ⟨p', hp'⟩
    · exact Or.inl ha
    · exact h.origin i r p' hp'
  answered c p m b v hp hl := by
    obtain ⟨c', b', i, r, q, o, hm, hi, ho, he⟩ := reply?_eq_some.1 (h.answered c p m b v hp hl)
    obtain ⟨q', hq', hoq⟩ := step_handler (S := S) hi a
    exact reply?_eq_some.2 ⟨c', b', i, r, q', o, hm, hq', hoq o ho, he⟩

/-- What is at an index of a list after one element is set. -/
theorem getElem?_set_cases {τ : Type} {l : List τ} {i j : ℕ} {x y : τ}
    (h : (l.set i x)[j]? = some y) : (j = i ∧ y = x) ∨ (j ≠ i ∧ l[j]? = some y) := by
  by_cases hij : j = i
  · subst hij
    have hl := (List.getElem?_eq_some_iff.1 h).1
    rw [List.getElem?_set_self (by simpa using hl)] at h
    exact Or.inl ⟨rfl, (Option.some.inj h).symm⟩
  · rw [List.getElem?_set_ne (Ne.symm hij)] at h
    exact Or.inr ⟨hij, h⟩

theorem getElem?_concat_cases {τ : Type} {l : List τ} {j : ℕ} {x y : τ}
    (h : (l ++ [x])[j]? = some y) : (j = l.length ∧ y = x) ∨ l[j]? = some y := by
  rcases Nat.lt_trichotomy j l.length with hl | rfl | hl
  · rw [List.getElem?_append_left hl] at h
    exact Or.inr h
  · rw [List.getElem?_concat_length] at h
    exact Or.inl ⟨rfl, (Option.some.inj h).symm⟩
  · have := (List.getElem?_eq_some_iff.1 h).1
    rw [List.length_append, List.length_singleton] at this
    omega

theorem getElem?_concat {τ : Type} {l : List τ} {j : ℕ} {x y : τ} (h : l[j]? = some y) :
    (l ++ [x])[j]? = some y := by
  rw [List.getElem?_append_left (List.getElem?_eq_some_iff.1 h).1, h]

theorem Inv.spawn (h : Inv s₀ w) (x : ξ) :
    Inv s₀ ({ w with procs := w.procs ++ [.start (N.program x)] } : World N) where
  run := h.run
  reached c p hp := by
    rcases getElem?_concat_cases hp with ⟨-, rfl⟩ | hp
    · exact ⟨x, .start⟩
    · exact h.reached c p hp
  posted c m b := by
    rw [← h.posted]
    refine ⟨fun ⟨p, hp, hm⟩ => ?_, fun ⟨p, hp, hm⟩ => ⟨p, getElem?_concat hp, hm⟩⟩
    rcases getElem?_concat_cases hp with ⟨-, rfl⟩ | hp
    · cases hm
    · exact ⟨p, hp, hm⟩
  handled := h.handled
  unique := h.unique
  origin := h.origin
  answered c p m b v hp hl := by
    rcases getElem?_concat_cases hp with ⟨-, rfl⟩ | hp
    · cases hl
    · exact h.answered c p m b v hp hl

theorem Inv.post (h : Inv s₀ w) {c : ℕ} {b : μ} {k : Except ε β → Client μ β ι ο ε Unit}
    {log : List (Event μ β ι ο ε)} (hc : w.procs[c]? = some ⟨.call b k, .idle, log⟩) :
    Inv s₀ ({ w with
      msgs := w.msgs ++ [⟨c, b, none⟩]
      procs := w.procs.set c ⟨.call b k, .reply w.msgs.length, log⟩ } : World N) where
  run := h.run
  reached c' p hp := by
    rcases getElem?_set_cases hp with ⟨-, rfl⟩ | ⟨-, hp⟩
    · obtain ⟨x, hx⟩ := h.reached c _ hc
      exact ⟨x, hx.next (.post _)⟩
    · exact h.reached c' p hp
  posted c' m b' := by
    have hl := (List.getElem?_eq_some_iff.1 hc).1
    constructor
    · rintro ⟨p, hp, hm⟩
      rcases getElem?_set_cases hp with ⟨rfl, rfl⟩ | ⟨-, hp⟩
      · rcases List.mem_cons.1 hm with hm | hm
        · obtain ⟨rfl, rfl⟩ := Prod.mk.inj hm
          exact ⟨none, List.getElem?_concat_length⟩
        · obtain ⟨q, hq⟩ := (h.posted c' m b').1 ⟨_, hc, hm⟩
          exact ⟨q, getElem?_concat hq⟩
      · obtain ⟨q, hq⟩ := (h.posted c' m b').1 ⟨_, hp, hm⟩
        exact ⟨q, getElem?_concat hq⟩
    · rintro ⟨q, hq⟩
      rcases getElem?_concat_cases hq with ⟨rfl, he⟩ | hq
      · cases he
        exact ⟨_, List.getElem?_set_self hl, List.mem_cons_self⟩
      · obtain ⟨p, hp, hm⟩ := (h.posted c' m b').2 ⟨q, hq⟩
        by_cases hcc : c' = c
        · subst hcc
          cases hc.symm.trans hp
          exact ⟨_, List.getElem?_set_self hl, List.mem_cons_of_mem _ hm⟩
        · exact ⟨p, (List.getElem?_set_ne (Ne.symm hcc)).trans hp, hm⟩
  handled m c' b' i hm := by
    rcases getElem?_concat_cases hm with ⟨-, hm⟩ | hm
    · cases hm
    · exact h.handled m c' b' i hm
  unique m m' c₁ c₂ b₁ b₂ i hm hm' := by
    rcases getElem?_concat_cases hm with ⟨-, hm⟩ | hm
    · cases hm
    rcases getElem?_concat_cases hm' with ⟨-, hm'⟩ | hm'
    · cases hm'
    exact h.unique m m' c₁ c₂ b₁ b₂ i hm hm'
  origin i r p hp := by
    rcases h.origin i r p hp with hf | ⟨m, c', b', x, hm, hr⟩
    · exact Or.inl hf
    · exact Or.inr ⟨m, c', b', x, getElem?_concat hm, hr⟩
  answered c' p m b' v hp hl := by
    have hold : w.reply? m = some (.ok v) := by
      rcases getElem?_set_cases hp with ⟨-, rfl⟩ | ⟨-, hp⟩
      · exact h.answered c _ m b' v hc hl
      · exact h.answered c' p m b' v hp hl
    obtain ⟨c₀, b₀, i, r, q, o, hm, hrest⟩ := reply?_eq_some.1 hold
    exact reply?_eq_some.2 ⟨c₀, b₀, i, r, q, o, getElem?_concat hm, hrest⟩

theorem Inv.deliver (h : Inv s₀ w) {m c : ℕ} {b : μ} (x : κ)
    (hm : w.msgs[m]? = some ⟨c, b, none⟩) : Inv s₀ ({ w with
      conf := S.step w.conf (.arrive (N.wire b x))
      msgs := w.msgs.set m ⟨c, b, some w.conf.procs.length⟩ } : World N) := by
  have hl := (List.getElem?_eq_some_iff.1 hm).1
  -- a message handed over before is another one
  have hkeep : ∀ {m' c' : ℕ} {b' : μ} {i : ℕ}, w.msgs[m']? = some ⟨c', b', some i⟩ →
      (w.msgs.set m ⟨c, b, some w.conf.procs.length⟩)[m']? = some ⟨c', b', some i⟩ := by
    intro m' c' b' i hm'
    rw [List.getElem?_set_ne, hm']
    rintro rfl
    rw [hm] at hm'
    cases hm'
  have hnew : ∀ {m' c' : ℕ} {b' : μ}, w.msgs[m']? ≠ some ⟨c', b', some w.conf.procs.length⟩ := by
    intro m' c' b' hm'
    obtain ⟨x, p, hp⟩ := h.handled m' c' b' _ hm'
    exact absurd (List.getElem?_eq_some_iff.1 hp).1 (Nat.lt_irrefl _)
  refine ⟨?_, h.reached, fun c' m' b' => ?_, fun m' c' b' i hm' => ?_,
    fun m₁ m₂ c₁ c₂ b₁ b₂ i h₁ h₂ => ?_, fun i r p hp => ?_, fun c' p m' b' v hp hlog => ?_⟩
  · obtain ⟨tr, hr⟩ := h.run
    exact ⟨_, hr.step (.arrive (N.wire b x))⟩
  · rw [h.posted]
    constructor
    · rintro ⟨q, hq⟩
      by_cases hmm : m' = m
      · subst hmm
        cases hm.symm.trans hq
        exact ⟨_, List.getElem?_set_self hl⟩
      · exact ⟨q, (List.getElem?_set_ne (Ne.symm hmm)).trans hq⟩
    · rintro ⟨q, hq⟩
      rcases getElem?_set_cases hq with ⟨rfl, he⟩ | ⟨-, hq⟩
      · cases he
        exact ⟨none, hm⟩
      · exact ⟨q, hq⟩
  · rcases getElem?_set_cases hm' with ⟨-, hm'⟩ | ⟨-, hm'⟩
    · cases hm'
      exact ⟨x, _, List.getElem?_concat_length⟩
    · obtain ⟨x', p, hp⟩ := h.handled m' c' b' i hm'
      exact ⟨x', p, getElem?_concat hp⟩
  · rcases getElem?_set_cases h₁ with ⟨rfl, he₁⟩ | ⟨-, ho₁⟩ <;>
      rcases getElem?_set_cases h₂ with ⟨rfl, he₂⟩ | ⟨-, ho₂⟩
    · rfl
    · cases he₁
      exact absurd ho₂ hnew
    · cases he₂
      exact absurd ho₁ hnew
    · exact h.unique m₁ m₂ c₁ c₂ b₁ b₂ i ho₁ ho₂
  · rcases getElem?_concat_cases hp with ⟨rfl, he⟩ | hp
    · cases he
      exact Or.inr ⟨m, c, b, x, List.getElem?_set_self hl, rfl⟩
    · rcases h.origin i r p hp with hf | ⟨m', c', b', x', hm', hr⟩
      · exact Or.inl hf
      · exact Or.inr ⟨m', c', b', x', hkeep hm', hr⟩
  · obtain ⟨c₀, b₀, i, r, q, o, hm', hi, ho⟩ := reply?_eq_some.1 (h.answered c' p m' b' v hp hlog)
    exact reply?_eq_some.2 ⟨c₀, b₀, i, r, q, o, hkeep hm', getElem?_concat hi, ho⟩

theorem Inv.process (h : Inv s₀ w) {c : ℕ} {p p' : Process μ β ι ο ε}
    (hc : w.procs[c]? = some p) (hn : Process.Next p p') (hpost : p'.posted = p.posted)
    (ha : ∀ m b v, .answered m b (.ok v) ∈ p'.log →
      .answered m b (.ok v) ∈ p.log ∨ w.reply? m = some (.ok v)) :
    Inv s₀ ({ w with procs := w.procs.set c p' } : World N) where
  run := h.run
  reached c' q hq := by
    rcases getElem?_set_cases hq with ⟨-, rfl⟩ | ⟨-, hq⟩
    · obtain ⟨x, hx⟩ := h.reached c p hc
      exact ⟨x, hx.next hn⟩
    · exact h.reached c' q hq
  posted c' m b := by
    have hl := (List.getElem?_eq_some_iff.1 hc).1
    rw [← h.posted]
    constructor
    · rintro ⟨q, hq, hm⟩
      rcases getElem?_set_cases hq with ⟨rfl, rfl⟩ | ⟨-, hq⟩
      · exact ⟨p, hc, hpost ▸ hm⟩
      · exact ⟨q, hq, hm⟩
    · rintro ⟨q, hq, hm⟩
      by_cases hcc : c' = c
      · subst hcc
        cases hc.symm.trans hq
        exact ⟨p', List.getElem?_set_self hl, hpost ▸ hm⟩
      · exact ⟨q, (List.getElem?_set_ne (Ne.symm hcc)).trans hq, hm⟩
  handled := h.handled
  unique := h.unique
  origin := h.origin
  answered c' q m b v hq hl := by
    rcases getElem?_set_cases hq with ⟨-, rfl⟩ | ⟨-, hq⟩
    · rcases ha m b v hl with hl | hr
      · exact h.answered c p m b v hc hl
      · exact hr
    · exact h.answered c' q m b v hq hl

theorem Inv.moved (h : Inv s₀ w) {w' : World N} (hm : Moved w w') : Inv s₀ w' := by
  cases hm with
  | same => exact h
  | service _ ha => exact h.service ha
  | spawn x => exact h.spawn x
  | post hc => exact h.post hc
  | deliver x hm => exact h.deliver x hm
  | process hc hn hp ha => exact h.process hc hn hp ha

/-- **The invariant holds in every reachable world.** -/
theorem Reach.inv (h : Reach (init N s₀) w) : Inv s₀ w := by
  induction h with
  | refl => exact .init N s₀
  | @step w _ a ih => exact ih.moved (moved_step w a)

theorem Moved.run {w' : World N} (h : Moved w w') {c₀ : Conf σ δ α ρ} {tr : List (Trans S)}
    (hr : S.Run c₀ tr w.conf) : ∃ tr', S.Run c₀ tr' w'.conf := by
  cases h with
  | service a => exact ⟨_, hr.step a⟩
  | deliver x => exact ⟨_, hr.step (.arrive (N.wire _ x))⟩
  | same | spawn | post | process => exact ⟨tr, hr⟩

/-- The service of a later world has run on. -/
theorem Reach.run {w' : World N} (h : Reach w w') : ∃ tr, S.Run w.conf tr w'.conf := by
  induction h with
  | refl => exact ⟨[], .init⟩
  | @step w' _ a ih =>
    obtain ⟨tr, hr⟩ := ih
    exact (moved_step w' a).run hr

theorem posted_of_answered {p : Process μ β ι ο ε} {m : ℕ} {b : μ} {a : Except ε β}
    (h : .answered m b a ∈ p.log) : (m, b) ∈ p.posted :=
  List.mem_append_right _ (List.mem_filterMap.2 ⟨_, h, rfl⟩)

/-- A client that was answered has its own handler, which has ended. -/
theorem Inv.handler (h : Inv s₀ w) {c : ℕ} {p : Process μ β ι ο ε} {m : ℕ} {b : μ} {v : β}
    (hc : w.procs[c]? = some p) (hm : .answered m b (.ok v) ∈ p.log) :
    ∃ i x q o, w.msgs[m]? = some ⟨c, b, some i⟩ ∧ w.conf.procs[i]? = some (N.wire b x, q) ∧
      outcome q = some o ∧ N.answer o = .ok v := by
  obtain ⟨c', b', i, r, q, o, hmsg, hi, ho, ha⟩ := reply?_eq_some.1 (h.answered c p m b v hc hm)
  obtain ⟨j, hj⟩ := (h.posted c m b).1 ⟨p, hc, posted_of_answered hm⟩
  cases hj.symm.trans hmsg
  obtain ⟨x, q', hx⟩ := h.handled m c b i hmsg
  cases hi.symm.trans hx
  exact ⟨i, x, q, o, hmsg, hi, ho, ha⟩

/-- A request that does not come from elsewhere was posted by a client. -/
theorem Inv.poster (h : Inv s₀ w) {i : ℕ} {r : ρ} {q : Prog σ δ α}
    (hi : w.conf.procs[i]? = some (r, q)) (hr : ¬ N.foreign r) :
    ∃ (c : ℕ) (p : Process μ β ι ο ε) (m : ℕ) (b : μ) (x : κ),
      w.procs[c]? = some p ∧ (m, b) ∈ p.posted ∧ r = N.wire b x := by
  rcases h.origin i r q hi with hf | ⟨m, c, b, x, hm, rfl⟩
  · exact absurd hf hr
  · obtain ⟨p, hp, hmp⟩ := (h.posted c m b).2 ⟨_, hm⟩
    exact ⟨c, p, m, b, x, hp, hmp, rfl⟩

theorem Inv.results_le (h : Inv s₀ w) (q : ι → Bool) :
    (w.results q).length ≤ (w.invocations q).length := by
  have hle : ∀ p ∈ w.procs, (p.results q).length ≤ (p.invocations q).length := by
    intro p hp
    obtain ⟨c, hc⟩ := List.getElem?_of_mem hp
    obtain ⟨x, hx⟩ := h.reached c p hc
    exact hx.results_le q
  unfold results invocations
  generalize w.procs = l at hle ⊢
  induction l with
  | nil => exact Nat.le_refl _
  | cons p l ih =>
    rw [List.flatMap_cons, List.flatMap_cons, List.length_append, List.length_append]
    exact Nat.add_le_add (hle p List.mem_cons_self)
      (ih fun p' hp' => hle p' (List.mem_cons_of_mem _ hp'))

end World

/-- If the lists have at most one element and no two of them have one, then so
    have they together. -/
theorem length_flatMap_le_one {τ ω : Type} {f : τ → List ω} {l : List τ}
    (h₁ : ∀ x ∈ l, (f x).length ≤ 1)
    (h₂ : ∀ (i j : ℕ) x y, l[i]? = some x → l[j]? = some y → f x ≠ [] → f y ≠ [] → i = j) :
    (l.flatMap f).length ≤ 1 := by
  induction l with
  | nil => simp
  | cons x l ih =>
    rw [List.flatMap_cons, List.length_append]
    by_cases hx : f x = []
    · rw [hx, List.length_nil, Nat.zero_add]
      refine ih (fun y hy => h₁ y (List.mem_cons_of_mem _ hy)) fun i j y z hy hz hfy hfz => ?_
      have := h₂ (i + 1) (j + 1) y z (by simpa using hy) (by simpa using hz) hfy hfz
      omega
    · have hnil : l.flatMap f = [] := by
        rw [List.flatMap_eq_nil_iff]
        intro y hy
        by_contra hfy
        obtain ⟨j, hj⟩ := List.getElem?_of_mem hy
        have := h₂ 0 (j + 1) x y (by simp) (by simpa using hj) hx hfy
        omega
      rw [hnil, List.length_nil, Nat.add_zero]
      exact h₁ x List.mem_cons_self

end Interleave
