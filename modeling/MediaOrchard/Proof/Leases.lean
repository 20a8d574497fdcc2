/-
  The steps of the Controller are a ledger of leases.

  * `Step.ticket`, `Db.ledger`: the tickets that the step rows stand for;
  * `Request.leaseOp?`: the operation that a lifecycle request asks for;
  * `Causes t m`: the moves of the ledger that a transition may make;
    `Effect.moves`: every transition makes such moves, in order, and nothing else;
  * `handle_linear`: the handlers of the lifecycle requests are linear;
  * `leases_linearizable`: both, for whole runs.
-/
import MediaOrchard.Lib.Lease
import MediaOrchard.Lib.Linear
import MediaOrchard.Proof.Exec
import MediaOrchard.Proof.Rows

namespace MediaOrchard

open Keyed Interleave Prog Lease

/-! ## The ledger -/

/-- What has become of a step that is assigned to this node. -/
def StepStatus.phase (node : Option String) : StepStatus → Lease.Phase (Option String)
  | .pending | .skipped | .cancelled => .idle
  | .queued => .waiting
  | .assigned => .granted node
  | .running => .active node
  | .completed => .finished
  | .failed => .abandoned

/-- The ticket of a step row. -/
def Step.ticket (x : Step) : Ticket (Option String) where
  phase := x.status.phase x.assignedNodeId
  epoch := x.assignmentEpoch
  retries := x.maxRetries - x.retryCount

/-- The tickets of the step rows. -/
def Db.ledger (db : Db) : Ledger String (Option String) := fun k => (db.steps.get? k).map Step.ticket

/-- The operation that a lifecycle request asks for, and on which step. -/
def Request.leaseOp? (r : Request) : Option (String × Op (Option String)) :=
  let node := r.headers.xMediaorchardNodeId
  match r.call with
  | .startStep stepId body => some (stepId, .begin node body.assignmentEpoch)
  | .progressStep stepId body => some (stepId, .report node body.assignmentEpoch)
  | .completeStep stepId body => some (stepId, .finish node body.assignmentEpoch)
  | .failStep stepId body => some (stepId, .abandon node body.assignmentEpoch)
  | _ => none

variable {app : App} {r : Request} {db : Db} {x : Step}

theorem ledger_some {k : String} (hx : db.steps.get? k = some x) : db.ledger k = some x.ticket := by
  unfold Db.ledger
  rw [hx, Option.map_some]

theorem ledger_congr {db' : Db} (hs : db'.steps = db.steps) : db'.ledger = db.ledger := by
  unfold Db.ledger
  rw [hs]

/-! ## The moves of a transition -/

/-- The operations on step `k` that request `r` may make. -/
def MayMove (r : Request) (k : String) (o : Op (Option String)) : Prop :=
  (∃ nodeId body n, r.call = .heartbeatNode nodeId body ∧ o = .grant (some n)) ∨
    r.leaseOp? = some (k, o)

/-- A change of a step row is an operation on its ticket, or none. -/
theorem StepWrite.ticket {x' : Step} (h : StepWrite db r x x') : x'.ticket = x.ticket ∨
    ∃ o, MayMove r x.id o ∧ x.ticket.step o = some x'.ticket := by
  have hfence : ∀ {k : String} {e : ℤ}, Fenced r x → r.call.fence? = some (k, e) →
      k = x.id ∧ e = x.assignmentEpoch := by
    intro k e hx hc
    exact Prod.mk.inj (Option.some.inj (hc.symm.trans hx.fence))
  cases h with
  | @assign nodeId body n now hc hs hn =>
    refine Or.inr ⟨.grant (some n), Or.inl ⟨nodeId, body, n, hc, rfl⟩, ?_⟩
    simp [Step.ticket, Ticket.step, hs, StepStatus.phase, Step.assigned]
  | claimNext | claim => exact Or.inl rfl
  | progress => exact Or.inl rfl
  | @start k body now hc hx hs =>
    obtain ⟨rfl, he⟩ := hfence hx (by rw [hc]; rfl)
    refine Or.inr ⟨.begin r.headers.xMediaorchardNodeId body.assignmentEpoch,
      Or.inr (by simp [Request.leaseOp?, hc]), ?_⟩
    simp [Step.ticket, Ticket.step, hs, StepStatus.phase, he, hx.owner]
  | @complete k body now hc hx hs =>
    obtain ⟨rfl, he⟩ := hfence hx (by rw [hc]; rfl)
    refine Or.inr ⟨.finish r.headers.xMediaorchardNodeId body.assignmentEpoch,
      Or.inr (by simp [Request.leaseOp?, hc]), ?_⟩
    simp [Step.ticket, Ticket.step, hs, StepStatus.phase, he, hx.owner]
  | @fail k body now hc hx hs =>
    obtain ⟨rfl, he⟩ := hfence hx (by rw [hc]; rfl)
    refine Or.inr ⟨.abandon r.headers.xMediaorchardNodeId body.assignmentEpoch,
      Or.inr (by simp [Request.leaseOp?, hc]), ?_⟩
    rcases hs with hs | hs <;> simp [Step.ticket, Ticket.step, hs, StepStatus.phase, he, hx.owner]

/-- A recovery revokes the grant of its step. -/
theorem recovered_ticket (hs : x.status = .assigned ∨ x.status = .running) :
    x.ticket.step .revoke = some x.recovered.ticket := by
  rcases hs with hs | hs
  · simp [Step.ticket, Ticket.step, hs, StepStatus.phase, Step.recovered]
  · have hretry : x.retryCount + 1 ≤ x.maxRetries ↔ 0 < x.maxRetries - x.retryCount := by omega
    by_cases hr : x.retryCount + 1 ≤ x.maxRetries
    · simp [Step.ticket, Ticket.step, hs, StepStatus.phase, Step.recovered, hr]
      omega
    · have hr' : ¬ 0 < x.maxRetries - x.retryCount := fun h => hr (hretry.2 h)
      simp only [Step.ticket, Ticket.step, hs, StepStatus.phase, Step.recovered, hr, hr', if_false]
      simp
      omega

/-- A change of the step rows in place. -/
theorem ledger_update {db' : Db} {f : Step → Step} {hf} {P : String → Op (Option String) → Prop}
    (hs : db'.steps = db.steps.update f hf) (h : ∀ x ∈ db.steps.rows, (f x).ticket = x.ticket ∨
      ∃ o, P x.id o ∧ x.ticket.step o = some (f x).ticket) :
    ∃ ms, db.ledger.run ms = some db'.ledger ∧ ∀ m ∈ ms, ∃ k o, m = .op k o ∧ P k o := by
  have hnew : ∀ k, db'.ledger k = (db.steps.get? k).map fun x => (f x).ticket := by
    intro k
    unfold Db.ledger
    rw [hs, Table.get?_update, Option.map_map]
    rfl
  refine Ledger.run_of_each (db.steps.rows.map Step.id) (fun k hk => ?_) fun k hk => ?_
  · have hnone : db.steps.get? k = none :=
      Table.get?_eq_none.2 fun x hx he => hk (List.mem_map.2 ⟨x, hx, he⟩)
    rw [hnew, hnone, Db.ledger, hnone]
    rfl
  · obtain ⟨x, hx, rfl⟩ := List.mem_map.1 hk
    have hget : db.steps.get? x.id = some x := Table.get?_of_mem hx
    rw [hnew, ledger_some hget, hget]
    rcases h x hx with he | ⟨o, hP, ho⟩
    · exact Or.inl (congrArg some he)
    · exact Or.inr ⟨x.ticket, o, (f x).ticket, hP, rfl, ho, rfl⟩

/-- The moves that a transition may make. -/
inductive Causes (t : Trans app.controller) : Move String (Option String) → Prop
  | revoke {k} : t.act = .env k → Causes t (.op k .revoke)
  | grant {i r nodeId body k n} : t.By i r → r.call = .heartbeatNode nodeId body →
      Causes t (.op k (.grant (some n)))
  | create {i r body k} : t.By i r → r.call = .createJob body →
      Causes t (.add k ⟨.waiting, 0, 2⟩)
  | lifecycle {i r k o} : t.By i r → r.leaseOp? = some (k, o) → Causes t (.op k o)

theorem MayMove.causes {t : Trans app.controller} {i : ℕ} (hby : t.By i r) {k : String}
    {o : Op (Option String)} (h : MayMove r k o) : Causes t (.op k o) := by
  rcases h with ⟨nodeId, body, n, hc, rfl⟩ | h
  · exact .grant hby hc
  · exact .lifecycle hby h

/-- The effect of a request, in the ledger. -/
theorem Effect.moves {t : Trans app.controller} {i : ℕ} (hby : t.By i r)
    (h : Effect app r t.pre.db t.post.db) :
    ∃ ms, t.pre.db.ledger.run ms = some t.post.db.ledger ∧ ∀ m ∈ ms, Causes t m := by
  have hsame : t.post.db.steps = t.pre.db.steps →
      ∃ ms, t.pre.db.ledger.run ms = some t.post.db.ledger ∧ ∀ m ∈ ms, Causes t m := by
    intro hs
    exact ⟨[], congrArg some (ledger_congr hs).symm, by simp⟩
  have hupdate : ∀ f hf, t.post.db.steps = t.pre.db.steps.update f hf →
      (∀ x ∈ t.pre.db.steps.rows, f x = x ∨ StepWrite t.pre.db r x (f x)) →
      ∃ ms, t.pre.db.ledger.run ms = some t.post.db.ledger ∧ ∀ m ∈ ms, Causes t m := by
    intro f hf hs hw
    obtain ⟨ms, hms, hall⟩ := ledger_update (P := MayMove r) hs fun x hx => by
      rcases hw x hx with he | hw
      · exact Or.inl (congrArg Step.ticket he)
      · exact hw.ticket
    refine ⟨ms, hms, fun m hm => ?_⟩
    obtain ⟨k, o, rfl, hP⟩ := hall m hm
    exact hP.causes hby
  generalize hd : t.post.db = db' at h hsame hupdate
  cases h with
  | read | register | job => exact hsame rfl
  | steps f hf hw | heartbeat f hf _ _ _ hw => exact hupdate f hf rfl hw
  | @create body inputFile outputDir jobs plans steps hc hj hs =>
    refine ⟨[.add ("step_" ++ r.ambient.stepHex) ⟨.waiting, 0, 2⟩], ?_, ?_⟩
    · have hnone := (Table.insert?_eq_some hs).1
      have hledger : t.pre.db.ledger ("step_" ++ r.ambient.stepHex) = none := by
        unfold Db.ledger
        rw [show t.pre.db.steps.get? ("step_" ++ r.ambient.stepHex) = none from hnone]
        rfl
      rw [Ledger.run_cons, Ledger.step, hledger]
      simp only [Option.isNone_none, if_true, Option.bind_some, Ledger.run_nil, Option.some.injEq]
      funext k
      unfold Db.ledger
      rw [Table.get?_insert hs]
      by_cases hk : "step_" ++ r.ambient.stepHex = k
      · subst hk
        rw [Ledger.set_self]
        simp [newRows, HasKey.key, Step.ticket, StepStatus.phase]
      · rw [Ledger.set_of_ne _ (Ne.symm hk)]
        simp [newRows, HasKey.key, hk]
    · intro m hm
      rw [List.mem_singleton.1 hm]
      exact .create hby hc

/-- **A transition of a run, in the ledger.** -/
theorem App.Run.moves {db₀ : Db} {tr : List (Trans app.controller)}
    {c : Conf Db HttpError Response Request} (h : app.Run db₀ tr c) {t : Trans app.controller}
    (ht : t ∈ tr) :
    ∃ ms, t.pre.db.ledger.run ms = some t.post.db.ledger ∧ ∀ m ∈ ms, Causes t m := by
  rcases (sound app).cases trivial h ht with he | ⟨i, r, hby, he⟩ | ⟨k, hact, he⟩
  · exact ⟨[], by rw [he]; rfl, by simp⟩
  · exact he.moves hby
  · have hupdate : t.post.db.steps = t.pre.db.steps.update
        (fun r => if r.id = k then recoverRow r else r)
        (fun r => by split_ifs <;> simp [recoverRow_id]) := by
      rw [he]
      rfl
    obtain ⟨ms, hms, hall⟩ := ledger_update (P := fun k' o => k' = k ∧ o = .revoke) hupdate
      fun x _ => by
        split_ifs with hid
        · rw [recoverRow_eq]
          split_ifs with hs
          · exact Or.inr ⟨.revoke, ⟨hid, rfl⟩, recovered_ticket hs⟩
          · exact Or.inl rfl
        · exact Or.inl rfl
    refine ⟨ms, hms, fun m hm => ?_⟩
    obtain ⟨_, _, rfl, rfl, rfl⟩ := hall m hm
    exact .revoke hact

/-! ## The point of a lifecycle request -/

/-- The ledger stays as it is. -/
def SameLedger (db db' : Db) : Prop := db'.ledger = db.ledger

/-- At the point of a request its operation is accepted, or it is refused and nothing
    is done. -/
def LeasePoint (k : String) (o : Op (Option String)) : Bool → Db → Db → Prop
  | true, db, db' => db.ledger.step (.op k o) = some db'.ledger
  | false, db, db' => db.ledger.step (.op k o) = none ∧ SameLedger db db'

/-- A handler whose point is that of `o` on step `k`. -/
abbrev LeaseLinear {α : Type} (k : String) (o : Op (Option String)) (p : Handler α) : Prop :=
  Linear Rely SameLedger (LeasePoint k o) p

/-- Under node `n` and epoch `e`, the guarded update from these statuses by these
    values is the operation `o`. -/
def Implements (n : String) (e : ℤ) (from_ : List StepStatus) (values : List StepValue)
    (o : Op (Option String)) : Prop :=
  ∀ x : Step, x.ticket.step o =
    if x.assignmentEpoch = e ∧ x.assignedNodeId = some n ∧ x.status ∈ from_ then
      some (x.setValues values).ticket
    else none

theorem sameLedger_job {old new : Job} : Acts SameLedger (commitJob old new) :=
  Acts.atomic fun _ => rfl

theorem ledger_setStep {x' : Step} (hx : db.steps.get? x.id = some x) (hid : x'.id = x.id) :
    (db.setStep x').ledger = db.ledger.set x.id x'.ticket := by
  funext k
  by_cases hk : k = x.id
  · subst hk
    rw [Ledger.set_self, ledger_some (setStep_get?_self hx hid)]
  · rw [Ledger.set_of_ne _ hk]
    unfold Db.ledger Db.setStep
    rw [Table.get?_update]
    cases hy : db.steps.get? k with
    | none => rfl
    | some y =>
      have hne : y.id ≠ x'.id := fun he => hk ((Table.key_of_get? hy).symm.trans (he.trans hid))
      rw [Option.map_some, if_neg hne]

section
variable {k n : String} {e : ℤ} {from_ : List StepStatus} {values : List StepValue}
  {o : Op (Option String)}

/-- A step that does not pass the checks refuses the operation. -/
theorem Implements.refuses (hi : Implements n e from_ values o)
    (h : ∀ x, db.steps.get? k = some x →
      ¬ (x.assignmentEpoch = e ∧ x.assignedNodeId = some n ∧ x.status ∈ from_)) :
    LeasePoint k o false db db := by
  refine ⟨?_, rfl⟩
  cases hx : db.steps.get? k with
  | none =>
    refine Ledger.step_op_none ?_ o
    unfold Db.ledger
    rw [hx, Option.map_none]
  | some x => rw [Ledger.step_op (ledger_some hx), hi x, if_neg (h x hx), Option.map_none]

/-- The row that `persist_step_update_or_409` reads back is there. -/
theorem refreshed_settled {sid : String} (hrow : HoldsRow sid (fun _ => True) db) :
    Settled Rely SameLedger true (do
      match ← read fun db => db.steps.get? sid with
      | none => .throw ⟨404, "step not found"⟩
      | some refreshed => return refreshed : Handler Step) db := by
  refine ⟨⟨_, stable_row fun _ _ _ h => h, hrow, ?_⟩, Spec.bind (Acts.read fun _ => rfl) fun o => ?_⟩
  · refine (show EndsIn _ (fun o => ∃ x, o = .ok (some x)) _ from ?_).bind ?_ ?_
    · rintro db ⟨y, hy, -⟩
      exact Or.inr ⟨y, congrArg Except.ok hy⟩
    · rintro err ⟨y, hy⟩
      cases hy
    · rintro _ ⟨y, hy⟩
      cases hy
      exact (Returns.ret y : Returns (.ret y : Handler Step))
  · cases o with
    | none => trivial
    | some y => exact fun _ _ => trivial

/-- **The guarded update is the point**, whatever was read before. -/
theorem persistStepUpdateOr409_linear {step : Step}
    (hi : Implements n step.assignmentEpoch from_ values o) :
    LeaseLinear step.id o (persistStepUpdateOr409 step n from_ values false) := by
  refine Linear.atomic fun db => ?_
  by_cases hc : db.steps.count (persistGuard step n from_ false) = 1
  · obtain ⟨-, x, hx, hg, -⟩ := updateSteps_one values (fun _ => persistGuard_id) hc
    have hid : x.id = step.id := Table.key_of_get? hx
    rw [← hid] at hx
    have hu : updateSteps (persistGuard step n from_ false) values db = _ :=
      updateSteps_eq values (fun y hy => (persistGuard_id hy).trans hid.symm) hx hg
    rw [hu, if_neg (not_not.2 rfl)]
    refine ⟨true, ?_, refreshed_settled ⟨_, hid ▸ setStep_get?_self hx (Step.setValues_id x values),
      trivial⟩⟩
    simp only [persistGuard, decide_eq_true_eq] at hg
    show _ = some (db.setStep (x.setValues values)).ledger
    rw [ledger_setStep hx (Step.setValues_id x values), ← hid, Ledger.step_op (ledger_some hx),
      hi x, if_pos ⟨hg.2.1, hg.2.2.1, hg.2.2.2.1⟩, Option.map_some]
  · have hu : updateSteps (persistGuard step n from_ false) values db =
        (db.steps.count (persistGuard step n from_ false), db) := by
      simp only [updateSteps, hc, if_false]
    rw [hu, if_pos hc]
    refine ⟨false, hi.refuses fun x hx hcheck => hc ?_, Settled.throw _ _⟩
    have hg : persistGuard step n from_ false x := by
      simp only [persistGuard, decide_eq_true_eq]
      exact ⟨Table.key_of_get? hx, hcheck.1, hcheck.2.1, hcheck.2.2, fun h => absurd h Bool.false_ne_true⟩
    rw [Table.count_of_key (k := step.id) fun _ => persistGuard_id, hx]
    simp [hg]

/-- **A check that fails is the point**: it was made on the row just read. -/
theorem loadOwnedStep_linear {β : Type} {g : Step → Handler β}
    (hi : Implements n e from_ values o)
    (hg : ∀ x : Step, x.id = k → x.assignmentEpoch = e →
      LeaseLinear k o (g x) ∨ (x.status ∉ from_ ∧ ∃ err, g x = .throw err)) :
    LeaseLinear k o ((loadOwnedStep k n e).bind g) := by
  have hthrow : ∀ (db : Db) (err : HttpError), (∀ x, db.steps.get? k = some x →
      ¬ (x.assignmentEpoch = e ∧ x.assignedNodeId = some n ∧ x.status ∈ from_)) →
      ∃ b, LeasePoint k o b db db ∧ Settled Rely SameLedger b (.throw err : Handler β) db :=
    fun db err hno => ⟨false, hi.refuses hno, Settled.throw _ _⟩
  unfold loadOwnedStep getStepOr404
  simp only [bind_eq, pure_eq, bind_assoc, ret_bind]
  refine Linear.read (fun _ => rfl) fun db => ?_
  cases hx : db.steps.get? k with
  | none =>
    refine Or.inr (hthrow db _ fun x hx' => ?_)
    cases hx.symm.trans hx'
  | some x =>
    rw [ret_bind]
    have hown : ∀ {err : HttpError}, ¬ (x.assignmentEpoch = e ∧ x.assignedNodeId = some n ∧
        x.status ∈ from_) → ∃ b, LeasePoint k o b db db ∧
          Settled Rely SameLedger b (.throw err : Handler β) db := by
      refine fun hno => hthrow db _ fun x' hx' => ?_
      cases hx.symm.trans hx'
      exact hno
    unfold validateWorkerOwnership
    split_ifs with ho
    · exact Or.inr (hown fun h => ho h.2.1)
    · rw [ret_bind]
      unfold validateEpochOr409
      by_cases he : x.assignmentEpoch = e
      · subst he
        rw [validateAssignmentEpoch_ok (u := ()).2 rfl, ret_bind]
        rcases hg x (Table.key_of_get? hx) rfl with hl | ⟨hs, err, herr⟩
        · exact Or.inl hl
        · rw [herr]
          exact Or.inr (hown fun h => hs h.2.2)
      · have herr : ∃ err, validateAssignmentEpoch x e = .error err := by
          unfold validateAssignmentEpoch
          rw [if_pos he]
          exact ⟨_, rfl⟩
        obtain ⟨err, herr⟩ := herr
        rw [herr, throw_bind]
        exact Or.inr (hown fun h => he h.1)

/-- **A lifecycle endpoint is linear.** -/
theorem endpoint_linear {target : StepStatus} {values : StepStatus → List StepValue}
    {mark : Step → Handler Unit} (hi : Implements n e from_ (values target) o)
    (ht : ∀ s, s ∈ from_ ↔ target ∈ legalStepTransitions s)
    (hret : ∀ x, Returns (mark x)) (hacts : ∀ x, Acts SameLedger (mark x)) :
    LeaseLinear k o (endpoint n k e target from_ values mark) := by
  refine loadOwnedStep_linear hi fun x hid he => ?_
  unfold transitionOr409
  by_cases hs : target ∈ legalStepTransitions x.status
  · rw [transitionStep_ok.2 ⟨hs, rfl⟩]
    dsimp only [bind_eq, ret_bind]
    subst hid he
    refine Or.inl (Linear.bind (persistStepUpdateOr409_linear hi) (fun y => ?_) fun y => ?_)
    · exact (hret y).bind fun _ => (Returns.ret y : Returns (.ret y : Handler Step))
    · exact Spec.bind (hacts y) fun _ _ _ => trivial
  · have herr : ∃ err, transitionStep x.status target = .error err := by
      unfold transitionStep
      rw [if_pos hs]
      exact ⟨_, rfl⟩
    obtain ⟨err, herr⟩ := herr
    rw [herr]
    exact Or.inr ⟨fun h => hs ((ht _).1 h), _, rfl⟩

end

/-! ## The lifecycle requests -/

theorem commitJob_returns (old new : Job) : Returns (commitJob old new) := Returns.atomic _

theorem markJobRunning_linear (clock : ℕ → Instant) (k : String) :
    Returns (markJobRunning clock k) ∧ Acts SameLedger (markJobRunning clock k) := by
  refine ⟨(Returns.read _).bind fun o => ?_, Spec.bind (Acts.read fun _ => rfl) fun o => ?_⟩
  all_goals cases o with
    | none => first | exact Returns.ret () | exact fun _ _ => trivial
    | some job =>
      dsimp only
      split_ifs
      all_goals first
        | exact commitJob_returns _ _
        | exact Returns.ret ()
        | exact sameLedger_job
        | exact fun _ _ => trivial

theorem markJobAfterStepCompletion_linear (clock : ℕ → Instant) (k : String) :
    Returns (markJobAfterStepCompletion clock k) ∧
      Acts SameLedger (markJobAfterStepCompletion clock k) := by
  refine ⟨(Returns.read _).bind fun o => ?_, Spec.bind (Acts.read fun _ => rfl) fun o => ?_⟩
  · cases o with
    | none => exact Returns.ret ()
    | some job => exact (Returns.read _).bind fun steps => commitJob_returns _ _
  · cases o with
    | none => exact fun _ _ => trivial
    | some job => exact Spec.bind (Acts.read fun _ => rfl) fun steps => sameLedger_job

theorem markJobFailed_linear (clock : ℕ → Instant) (k msg : String) :
    Returns (markJobFailed clock k msg) ∧ Acts SameLedger (markJobFailed clock k msg) := by
  refine ⟨(Returns.read _).bind fun o => ?_, Spec.bind (Acts.read fun _ => rfl) fun o => ?_⟩
  · cases o with
    | none => exact Returns.ret ()
    | some job => exact commitJob_returns _ _
  · cases o with
    | none => exact fun _ _ => trivial
    | some job => exact sameLedger_job

theorem implements_start (n : String) (e : ℤ) (now : Instant) :
    Implements n e [.assigned] [.status .running, .startedAt now] (.begin (some n) e) := by
  intro x
  cases hs : x.status <;> by_cases hn : x.assignedNodeId = some n <;>
    by_cases he : x.assignmentEpoch = e <;>
    simp [Step.ticket, Ticket.step, StepStatus.phase, Step.setValues, StepValue.set, hs, hn, he]

theorem implements_progress (n : String) (e : ℤ) (out : Dict) :
    Implements n e [.running] [.outputJson out] (.report (some n) e) := by
  intro x
  cases hs : x.status <;> by_cases hn : x.assignedNodeId = some n <;>
    by_cases he : x.assignmentEpoch = e <;>
    simp [Step.ticket, Ticket.step, StepStatus.phase, Step.setValues, StepValue.set, hs, hn, he]

theorem implements_complete (n : String) (e : ℤ) (out : Dict) (now : Instant) :
    Implements n e [.running] [.status .completed, .outputJson out, .completedAt now]
      (.finish (some n) e) := by
  intro x
  cases hs : x.status <;> by_cases hn : x.assignedNodeId = some n <;>
    by_cases he : x.assignmentEpoch = e <;>
    simp [Step.ticket, Ticket.step, StepStatus.phase, Step.setValues, StepValue.set, hs, hn, he]

theorem implements_fail (n : String) (e : ℤ) (msg : String) (now : Instant) :
    Implements n e [.assigned, .running] [.status .failed, .errorMessage msg, .completedAt now]
      (.abandon (some n) e) := by
  intro x
  cases hs : x.status <;> by_cases hn : x.assignedNodeId = some n <;>
    by_cases he : x.assignmentEpoch = e <;>
    simp [Step.ticket, Ticket.step, StepStatus.phase, Step.setValues, StepValue.set, hs, hn, he]

/-- What turns a lifecycle request away before the database is looked at: its key, its
    node header, a field of its body; any key, if the stored hash is not ASCII. -/
def TurnedAway (app : App) (r : Request) : Prop :=
  ∃ err : HttpError, app.handle r = .throw err ∧
    (err.status ∈ [401, 403, 422] ∨ err = internalError ∧ isAscii app.apiKeyHash = false)

theorem requireWorkerAuth_refuses (app : App) (h : Headers) :
    requireWorkerAuth app h = .ret () ∨ ∃ err, requireWorkerAuth app h = .throw err ∧
      (err.status ∈ [401, 403, 422] ∨ err = internalError ∧ isAscii app.apiKeyHash = false) := by
  rcases requireWorkerAuth_answers app h with hr | hr | ⟨hr, hascii⟩
  · exact Or.inl hr
  · exact Or.inr ⟨_, hr, Or.inl (by simp)⟩
  · exact Or.inr ⟨_, hr, Or.inr ⟨rfl, hascii⟩⟩

theorem requireWorkerNodeId_refuses (h : Headers) :
    (∃ n, h.xMediaorchardNodeId = some n ∧ requireWorkerNodeId h = .ret n) ∨
      requireWorkerNodeId h = .throw ⟨403, "missing worker node id"⟩ := by
  unfold requireWorkerNodeId
  split
  · exact Or.inr rfl
  · split_ifs
    exacts [Or.inr rfl, Or.inl ⟨_, ‹_›, rfl⟩]

theorem requireValid_refuses (fields : List String) : requireValid fields = .ret () ∨
    ∃ detail, requireValid fields = .throw ⟨422, detail⟩ := by
  unfold requireValid
  split_ifs
  exacts [Or.inl rfl, Or.inr ⟨_, rfl⟩]

theorem startStep_linear (env : Ambient) (n k : String) (body : StepEpochRequest) :
    LeaseLinear k (.begin (some n) body.assignmentEpoch) (startStep env n k body) := by
  rw [startStep_eq]
  exact endpoint_linear (implements_start n _ _) (fun s => by cases s <;> decide)
    (fun x => (markJobRunning_linear _ _).1) fun x => (markJobRunning_linear _ _).2

theorem completeStep_linear (env : Ambient) (n k : String) (body : StepCompleteRequest) :
    LeaseLinear k (.finish (some n) body.assignmentEpoch) (completeStep env n k body) := by
  rw [completeStep_eq]
  exact endpoint_linear (implements_complete n _ _ _) (fun s => by cases s <;> decide)
    (fun x => (markJobAfterStepCompletion_linear _ _).1)
    fun x => (markJobAfterStepCompletion_linear _ _).2

theorem failStep_linear (env : Ambient) (n k : String) (body : StepFailRequest) :
    LeaseLinear k (.abandon (some n) body.assignmentEpoch) (failStep env n k body) := by
  rw [failStep_eq]
  exact endpoint_linear (implements_fail n _ _ _) (fun s => by cases s <;> decide)
    (fun x => (markJobFailed_linear _ _ _).1) fun x => (markJobFailed_linear _ _ _).2

/-- A `progress` request makes no check of the status before its update. -/
theorem progressStep_linear (n k : String) (body : StepProgressRequest)
    (hvalid : requireValid body.invalid = .ret ()) :
    LeaseLinear k (.report (some n) body.assignmentEpoch) (progressStep n k body) := by
  unfold progressStep
  rw [hvalid, bind_eq, ret_bind]
  refine loadOwnedStep_linear (implements_progress n _ []) fun x hid he => ?_
  subst hid
  rw [← he]
  exact Or.inl (persistStepUpdateOr409_linear (implements_progress n _ _))

/-- **A lifecycle request is turned away, or its handler is linear.** -/
theorem handle_linear {k : String} {o : Op (Option String)} (h : r.leaseOp? = some (k, o)) :
    TurnedAway app r ∨ LeaseLinear k o (app.handle r) := by
  have hanswer : ∀ {p : Handler Step}, LeaseLinear k o p →
      LeaseLinear k o (p.bind fun x => .ret (Response.step x)) := fun hp =>
    Linear.bind hp (fun x => Returns.ret _) fun x _ _ => trivial
  unfold TurnedAway App.handle
  rcases requireWorkerAuth_refuses app r.headers with hauth | ⟨err, hauth, herr⟩
  swap
  · exact Or.inl ⟨err, by rw [hauth]; rfl, herr⟩
  rw [hauth, bind_eq, ret_bind]
  rcases requireWorkerNodeId_refuses r.headers with ⟨n, hnode, hn⟩ | hn
  swap
  · left
    unfold Request.leaseOp? at h
    cases hc : r.call with
    | startStep | progressStep | completeStep | failStep => exact ⟨_, by rw [hn]; rfl, by simp⟩
    | _ => rw [hc] at h; cases h
  unfold Request.leaseOp? at h
  rw [hnode] at h
  rw [hn]
  cases hc : r.call with
  | startStep stepId body =>
    rw [hc] at h
    cases h
    exact Or.inr (hanswer (startStep_linear _ _ _ _))
  | progressStep stepId body =>
    rw [hc] at h
    cases h
    rcases requireValid_refuses body.invalid with hvalid | ⟨detail, hvalid⟩
    · exact Or.inr (hanswer (progressStep_linear _ _ _ hvalid))
    · refine Or.inl ⟨⟨422, detail⟩, ?_, by simp⟩
      simp only [progressStep, hvalid, bind_eq, ret_bind, throw_bind]
  | completeStep stepId body =>
    rw [hc] at h
    cases h
    exact Or.inr (hanswer (completeStep_linear _ _ _ _))
  | failStep stepId body =>
    rw [hc] at h
    cases h
    exact Or.inr (hanswer (failStep_linear _ _ _ _))
  | _ => rw [hc] at h; cases h

/-- **The lifecycle of steps is a linearizable ledger of leases.**  Every transition of a run
    makes, in the ledger, only the moves it may cause; and a lifecycle request that is
    not turned away has one action in which its operation is accepted or refused by the
    ledger of that moment, it is answered accordingly, and its other actions leave the
    ledger alone. -/
theorem leases_linearizable {db₀ : Db} {tr : List (Trans app.controller)}
    {c : Conf Db HttpError Response Request} (h : app.Run db₀ tr c) :
    (∀ t ∈ tr, ∃ ms, t.pre.db.ledger.run ms = some t.post.db.ledger ∧ ∀ m ∈ ms, Causes t m) ∧
    ∀ i r k o, r.leaseOp? = some (k, o) → ∀ answer : Except HttpError Response,
      c.procs[i]? = some (r, Service.done answer) → TurnedAway app r ∨
        ∃ tr₂ t tr₁, tr = tr₂ ++ t :: tr₁ ∧ t.By i r ∧
          LeasePoint k o answer.isOk t.pre.db t.post.db ∧
          ∀ t' ∈ tr₂ ++ tr₁, t'.By i r → SameLedger t'.pre.db t'.post.db := by
  refine ⟨fun t ht => h.moves ht, fun i r k o hop answer hi => ?_⟩
  by_cases haway : TurnedAway app r
  · exact Or.inl haway
  right
  have hlin : ∀ r', r = r' → LeaseLinear k o (app.controller.handler r') := by
    rintro _ rfl
    exact (handle_linear hop).resolve_left haway
  have hself : ∀ db, SameLedger db db := fun _ => rfl
  rcases h.linear (sound app) (fun db _ => .refl db) hself trivial hlin i r _ rfl hi with
    ⟨-, hbefore⟩ | hpassed
  · cases answer <;> exact hbefore.elim
  · obtain ⟨b, tr₂, t, tr₁, rfl, hby, hpt, hquiet, hsettled⟩ := hpassed
    refine ⟨tr₂, t, tr₁, rfl, hby, ?_, hquiet⟩
    rw [hsettled.outcome]
    exact hpt

/-- The request asks for the operation on `step_a`, is not turned away, and is answered. -/
def answersOn (o : Op (Option String)) : Request × Prog Db HttpError Response → Bool
  | (r, .ret _) => r.leaseOp? = some ("step_a", o) ∧ sampleStatus Db.empty r = 404
  | _ => false

theorem not_turnedAway (h : sampleStatus Db.empty r = 404) : ¬ TurnedAway sampleApp r := by
  rintro ⟨err, herr, hstatus⟩
  have he : sampleStatus Db.empty r = err.status := by
    unfold sampleStatus
    rw [herr]
    rfl
  rw [h] at he
  rcases hstatus with hstatus | ⟨-, hascii⟩
  · rw [← he] at hstatus
    revert hstatus
    decide
  · revert hascii
    decide +kernel

/-- The run that completes `step_a`, and what it is in the ledger: the `start`, its fifth
    request, and the `complete`, its sixth, are answered, and each has moved the lease. -/
theorem leases_linearizable_sample :
    let run := sampleRun (oneByOne 0 (sampleAssigned ++ sampleCompleted))
    run.2.db.ledger "step_a" = some ⟨.finished, 1, 2⟩ ∧
      (∀ t ∈ run.1, ∃ ms, t.pre.db.ledger.run ms = some t.post.db.ledger ∧ ∀ m ∈ ms, Causes t m) ∧
      ∀ io ∈ [(4, Op.begin (some "mac") 1), (5, Op.finish (some "mac") 1)],
        ∃ t ∈ run.1, t.pre.db.ledger.step (.op "step_a" io.2) = some t.post.db.ledger := by
  intro run
  obtain ⟨hmoves, hanswers⟩ :=
    leases_linearizable (sampleRun_run (oneByOne 0 (sampleAssigned ++ sampleCompleted)))
  refine ⟨by decide +kernel, hmoves, fun io hio => ?_⟩
  have hall : ∀ io ∈ [(4, Op.begin (some "mac") 1), (5, Op.finish (some "mac") 1)],
      (run.2.procs[io.1]?).any (answersOn io.2) := by decide +kernel
  obtain ⟨⟨r, p⟩, hproc, hanswer⟩ := (Option.any_eq_true _ _).1 (hall io hio)
  cases p with
  | throw | act => cases hanswer
  | ret resp =>
    obtain ⟨hop, hstatus⟩ := of_decide_eq_true hanswer
    rcases hanswers io.1 r "step_a" io.2 hop (.ok resp) hproc with haway | ⟨tr₂, t, tr₁, htr, -, hpt, -⟩
    · exact absurd haway (not_turnedAway hstatus)
    · exact ⟨t, htr ▸ List.mem_append_right _ List.mem_cons_self, hpt⟩

end MediaOrchard
