/-
  A ledger of tickets that are leased to holders.

  A ticket waits until it is granted to a holder, under a new epoch.  The holder
  begins it, reports on it, and finishes or abandons it, each time under the
  epoch of its grant; a grant may be revoked, which is again a new epoch.  A ticket
  that was begun is granted again only as long as it has retries left.

  * `Ticket.step`: what an operation makes of a ticket, none if it is refused;
  * `Ledger.step`, `Ledger.run`: the same for the tickets of a ledger;
  * `Ledger.run_of_each`: tickets that differ by at most one operation each.
-/
import Mathlib.Data.Int.Notation
import Mathlib.Logic.Function.Basic
import Mathlib.Tactic.SplitIfs

namespace Lease

/-- What has become of a ticket. -/
inductive Phase (ν : Type) where
  | idle
  | waiting
  | granted (holder : ν)
  | active (holder : ν)
  | finished
  | abandoned
  deriving DecidableEq, Repr

structure Ticket (ν : Type) where
  phase : Phase ν
  epoch : ℤ
  retries : ℤ
  deriving DecidableEq, Repr

/-- The operations on a ticket; those of a holder carry the epoch of its grant. -/
inductive Op (ν : Type) where
  | grant (holder : ν)
  | begin (holder : ν) (epoch : ℤ)
  | report (holder : ν) (epoch : ℤ)
  | finish (holder : ν) (epoch : ℤ)
  | abandon (holder : ν) (epoch : ℤ)
  | revoke
  deriving DecidableEq, Repr

variable {ν κ : Type} [DecidableEq ν] [DecidableEq κ]

/-- The ticket after an operation; none if it is refused. -/
def Ticket.step (t : Ticket ν) : Op ν → Option (Ticket ν)
  | .grant n =>
    if t.phase = .waiting then some { t with phase := .granted n, epoch := t.epoch + 1 } else none
  | .begin n e =>
    if t.phase = .granted n ∧ t.epoch = e then some { t with phase := .active n } else none
  | .report n e => if t.phase = .active n ∧ t.epoch = e then some t else none
  | .finish n e =>
    if t.phase = .active n ∧ t.epoch = e then some { t with phase := .finished } else none
  | .abandon n e =>
    if (t.phase = .granted n ∨ t.phase = .active n) ∧ t.epoch = e then
      some { t with phase := .abandoned }
    else none
  | .revoke =>
    match t.phase with
    | .granted _ => some { t with phase := .waiting, epoch := t.epoch + 1 }
    | .active _ =>
      some
        { phase := if 0 < t.retries then .waiting else .abandoned
          epoch := t.epoch + 1
          retries := t.retries - 1 }
    | _ => none

/-! ## Ledgers -/

/-- The tickets by their keys. -/
abbrev Ledger (κ ν : Type) := κ → Option (Ticket ν)

/-- What happens to a ledger: a ticket is added, or operated on. -/
inductive Move (κ ν : Type) where
  | add (k : κ) (t : Ticket ν)
  | op (k : κ) (o : Op ν)

namespace Ledger

/-- The ledger with the ticket `t` under `k`. -/
def set (L : Ledger κ ν) (k : κ) (t : Ticket ν) : Ledger κ ν := Function.update L k (some t)

/-- The ledger after a move; none if it is refused. -/
def step (L : Ledger κ ν) : Move κ ν → Option (Ledger κ ν)
  | .add k t => if (L k).isNone then some (L.set k t) else none
  | .op k o => ((L k).bind fun t => t.step o).map fun t => L.set k t

/-- The ledger after several moves. -/
def run (L : Ledger κ ν) (ms : List (Move κ ν)) : Option (Ledger κ ν) := ms.foldlM step L

@[simp] theorem run_nil (L : Ledger κ ν) : L.run [] = some L := rfl

theorem run_cons (L : Ledger κ ν) (m : Move κ ν) (ms : List (Move κ ν)) :
    L.run (m :: ms) = (L.step m).bind fun L' => L'.run ms := rfl

omit [DecidableEq ν] in
theorem set_self (L : Ledger κ ν) (k : κ) (t : Ticket ν) : L.set k t k = some t :=
  Function.update_self ..

omit [DecidableEq ν] in
theorem set_of_ne (L : Ledger κ ν) {k k' : κ} (h : k' ≠ k) (t : Ticket ν) : L.set k t k' = L k' :=
  Function.update_of_ne h ..

/-- An operation is accepted iff the ticket is there and accepts it. -/
theorem step_op {L : Ledger κ ν} {k : κ} {t : Ticket ν} (h : L k = some t) (o : Op ν) :
    L.step (.op k o) = (t.step o).map fun t' => L.set k t' := by
  simp only [step, h, Option.bind_some]

theorem step_op_none {L : Ledger κ ν} {k : κ} (h : L k = none) (o : Op ν) :
    L.step (.op k o) = none := by
  simp only [step, h, Option.bind_none, Option.map_none]

/-- A ledger that differs by at most one operation on each of some tickets is reached by
    these operations. -/
theorem run_of_each {P : κ → Op ν → Prop} {L' : Ledger κ ν} (ks : List κ) {L : Ledger κ ν}
    (hsame : ∀ k, k ∉ ks → L' k = L k)
    (heach : ∀ k ∈ ks, L' k = L k ∨
      ∃ t o t', P k o ∧ L k = some t ∧ t.step o = some t' ∧ L' k = some t') :
    ∃ ms, L.run ms = some L' ∧ ∀ m ∈ ms, ∃ k o, m = .op k o ∧ P k o := by
  induction ks generalizing L with
  | nil =>
    obtain rfl : L' = L := funext fun k => hsame k List.not_mem_nil
    exact ⟨[], rfl, by simp⟩
  | cons k ks ih =>
    rcases heach k List.mem_cons_self with hk | ⟨t, o, t', hP, ht, ho, hk⟩
    · refine ih (fun k' hk' => ?_) fun k' hk' => heach k' (List.mem_cons_of_mem _ hk')
      by_cases he : k' = k
      · rw [he, hk]
      · exact hsame k' (by simp [he, hk'])
    · have hset : ∀ k', k' ≠ k → L.set k t' k' = L k' := fun k' he => set_of_ne L he t'
      have hsame' : ∀ k', k' ∉ ks → L' k' = L.set k t' k' := by
        intro k' hk'
        by_cases he : k' = k
        · rw [he, set_self, hk]
        · rw [hset k' he]
          exact hsame k' (by simp [he, hk'])
      obtain ⟨ms, hms, hall⟩ := ih hsame' fun k' hk' => by
        by_cases he : k' = k
        · exact Or.inl (by rw [he, set_self, hk])
        · rw [hset k' he]
          exact heach k' (List.mem_cons_of_mem _ hk')
      refine ⟨.op k o :: ms, ?_, List.forall_mem_cons.2 ⟨⟨k, o, rfl, hP⟩, hall⟩⟩
      rw [run_cons, step_op ht, ho]
      exact hms

end Ledger

end Lease
