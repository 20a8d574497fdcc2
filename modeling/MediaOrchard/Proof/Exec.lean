/-
  Requests handled alone.

  `start`, `complete` and `fail` are admitted or rejected as a whole when
  nothing happens in between: an admitted request rewrites one step row and its
  job row (`exec_admitted`), a rejected one leaves the database as it is
  (`exec_rejected`).
-/
import MediaOrchard.Proof.Handlers

namespace MediaOrchard

open Keyed Interleave Prog

variable {app : App} {r : Request} {db : Db} {x : Step}

/-! ## Writing one row -/

/-- The row of step `x.id`, if any, becomes `x`. -/
def Db.setStep (db : Db) (x : Step) : Db :=
  { db with
    steps := db.steps.update (fun r => if r.id = x.id then x else r) fun r => by
      split_ifs with h
      exacts [h.symm, rfl] }

/-- The row of job `k`, if any, is rewritten by `f`. -/
def Db.mapJob (db : Db) (k : String) (f : Job → Job) (hf : ∀ j, (f j).id = j.id) : Db :=
  { db with
    jobs := db.jobs.update (fun j => if j.id = k then f j else j) fun j => by
      split_ifs
      exacts [hf j, rfl] }

@[simp] theorem setStep_jobs (db : Db) (x : Step) : (db.setStep x).jobs = db.jobs := rfl

@[simp] theorem mapJob_steps (db : Db) (k : String) (f : Job → Job) (hf) :
    (db.mapJob k f hf).steps = db.steps := rfl

theorem setStep_get?_self {x' : Step} (hx : db.steps.get? x.id = some x) (hid : x'.id = x.id) :
    (db.setStep x').steps.get? x.id = some x' := by
  simp [Db.setStep, hx, hid]

theorem mem_setStep {x' y : Step} (hx : db.steps.get? x.id = some x) (hid : x'.id = x.id) :
    y ∈ (db.setStep x').steps.rows ↔ y = x' ∨ y ∈ db.steps.rows ∧ y.id ≠ x.id := by
  rw [Db.setStep, Table.mem_update]
  constructor
  · rintro ⟨y, hy, rfl⟩
    split_ifs with h
    · exact Or.inl rfl
    · exact Or.inr ⟨hy, hid ▸ h⟩
  · rintro (rfl | ⟨hy, hne⟩)
    · exact ⟨x, Table.mem_of_get? hx, if_pos hid.symm⟩
    · exact ⟨y, hy, if_neg (hid ▸ hne)⟩

theorem mapJob_get? (k k' : String) (f : Job → Job) (hf) : (db.mapJob k f hf).jobs.get? k' =
    (db.jobs.get? k').map fun j => if k' = k then f j else j := by
  rw [Db.mapJob, Table.get?_update]
  cases hj : db.jobs.get? k' with
  | none => rfl
  | some j =>
    have hj : j.id = k' := Table.key_of_get? hj
    simp [hj]

theorem mem_mapJob {k : String} {f : Job → Job} {hf} {j' : Job} :
    j' ∈ (db.mapJob k f hf).jobs.rows ↔
      ∃ j ∈ db.jobs.rows, (if j.id = k then f j else j) = j' := by
  simp [Db.mapJob]

/-- A guarded update whose guard admits the row `x` rewrites it. -/
theorem updateSteps_eq {guard : Step → Bool} (values : List StepValue)
    (hid : ∀ y, guard y → y.id = x.id) (hx : db.steps.get? x.id = some x) (hg : guard x) :
    updateSteps guard values db = (1, db.setStep (x.setValues values)) := by
  have hc : db.steps.count guard = 1 := by
    rw [Table.count_of_key (k := x.id) hid, hx]
    simp [hg]
  have hrows : ∀ y ∈ db.steps.rows, (if guard y then y.setValues values else y) =
      if y.id = (x.setValues values).id then x.setValues values else y := by
    intro y hy
    rw [Step.setValues_id]
    by_cases he : y.id = x.id
    · obtain rfl : y = x := Table.eq_of_key hy (Table.mem_of_get? hx) he
      simp [hg]
    · rw [if_neg fun h => he (hid y h), if_neg he]
  simp only [updateSteps, hc, if_true, Db.setStep]
  congr 2
  exact Table.ext (List.map_congr_left hrows)

/-! ## Lifecycle requests -/

/-- The statuses from which a lifecycle request is accepted. -/
def Call.fromStatuses : Call → List StepStatus
  | .startStep .. => [.assigned]
  | .completeStep .. => [.running]
  | .failStep .. => [.assigned, .running]
  | _ => []

/-- The step a lifecycle request moves, and where to. -/
def Call.target? : Call → Option (String × StepStatus)
  | .startStep stepId _ => some (stepId, .running)
  | .completeStep stepId _ => some (stepId, .completed)
  | .failStep stepId _ => some (stepId, .failed)
  | _ => none

/-- A request is accepted from the statuses with a legal move to its target. -/
theorem Call.mem_fromStatuses {call : Call} {k : String} {st s : StepStatus}
    (h : call.target? = some (k, st)) : s ∈ call.fromStatuses ↔ st ∈ legalStepTransitions s := by
  cases call with
  | startStep | completeStep | failStep =>
    cases h
    cases s <;> simp [Call.fromStatuses, legalStepTransitions]
  | _ => cases h

/-- The checks of a `start`, `complete` or `fail` request pass on the row `x`. -/
structure Admitted (app : App) (r : Request) (x : Step) : Prop where
  auth : requireWorkerAuth app r.headers = .ret ()
  owner : ∃ n, requireWorkerNodeId r.headers = .ret n ∧ x.assignedNodeId = some n
  fence : r.call.fence? = some (x.id, x.assignmentEpoch)
  status : x.status ∈ r.call.fromStatuses

/-- The step row after an accepted request. -/
def Step.after (x : Step) (r : Request) : Step :=
  match r.call with
  | .startStep _ _ => { x with status := .running, startedAt := some (r.ambient.clock 0) }
  | .completeStep _ body => { x with
      status := .completed, outputJson := some body.outputJson,
      completedAt := some (r.ambient.clock 0) }
  | .failStep _ body => { x with
      status := .failed, errorMessage := some body.errorMessage,
      completedAt := some (r.ambient.clock 0) }
  | _ => x

/-- The job row after an accepted request, which left its steps as `steps`. -/
def Job.after (r : Request) (steps : List Step) (job : Job) : Job :=
  match r.call with
  | .startStep _ _ =>
    if job.status = .created ∨ job.status = .queued then { job with
      status := .running, progress := max job.progress 1, updatedAt := r.ambient.clock 1 }
    else job
  | .completeStep _ _ => job.afterStepCompletion steps fun i => r.ambient.clock (i + 1)
  | .failStep _ body => { job with
      status := .failed, errorMessage := some body.errorMessage,
      completedAt := some (r.ambient.clock 1), updatedAt := r.ambient.clock 2 }
  | _ => job

@[simp] theorem Step.after_id (x : Step) (r : Request) : (x.after r).id = x.id := by
  unfold Step.after; split <;> rfl

@[simp] theorem Step.after_jobId (x : Step) (r : Request) : (x.after r).jobId = x.jobId := by
  unfold Step.after; split <;> rfl

theorem Job.after_id (r : Request) (steps : List Step) (job : Job) :
    (job.after r steps).id = job.id := by
  unfold Job.after Job.afterStepCompletion
  split
  · split_ifs <;> rfl
  · dsimp only; split_ifs <;> rfl
  · rfl
  · rfl

/-- The database after an accepted request for step `x`. -/
def Db.after (db : Db) (r : Request) (x : Step) : Db :=
  (db.setStep (x.after r)).mapJob x.jobId
    (Job.after r ((db.setStep (x.after r)).steps.select fun s => s.jobId = x.jobId))
    (Job.after_id r _)

theorem commitJob_exec {f : Job → Job} (hf : ∀ j, (f j).id = j.id) {k : String} {job : Job}
    (hj : db.jobs.get? k = some job) :
    (commitJob job (f job)).exec db = (.ok (), db.mapJob k f hf) := by
  have hk : job.id = k := Table.key_of_get? hj
  simp only [commitJob, exec_atomic, Db.mapJob]
  congr 2
  refine Table.ext (List.map_congr_left fun j hmem => ?_)
  rw [hk]
  split_ifs with he
  · obtain rfl : j = job := Table.eq_of_key hmem (Table.mem_of_get? hj) (he.trans hk.symm)
    exact Job.flush_loaded (hf j)
  · rfl

/-- A job that does not exist is not written. -/
theorem mapJob_none {f : Job → Job} {hf : ∀ j, (f j).id = j.id} {k : String}
    (hj : db.jobs.get? k = none) : db.mapJob k f hf = db := by
  have : (db.jobs.update (fun j => if j.id = k then f j else j) fun j => by
      split_ifs; exacts [hf j, rfl]) = db.jobs :=
    Table.update_of_fixed fun j hmem => if_neg (Table.get?_eq_none.1 hj j hmem)
  simp only [Db.mapJob, this]

/-- A job that `f` leaves alone is not written. -/
theorem mapJob_fixed {f : Job → Job} {hf : ∀ j, (f j).id = j.id} {k : String} {job : Job}
    (hj : db.jobs.get? k = some job) (h : f job = job) : db.mapJob k f hf = db := by
  have : (db.jobs.update (fun j => if j.id = k then f j else j) fun j => by
      split_ifs; exacts [hf j, rfl]) = db.jobs := by
    refine Table.update_of_fixed fun j hmem => ?_
    split_ifs with he
    · obtain rfl : j = job := Table.eq_of_key hmem (Table.mem_of_get? hj)
        (he.trans (Table.key_of_get? hj).symm)
      exact h
    · rfl
  simp only [Db.mapJob, this]

theorem loadOwnedStep_exec {n : String} (hx : db.steps.get? x.id = some x)
    (ho : x.assignedNodeId = some n) :
    (loadOwnedStep x.id n x.assignmentEpoch).exec db = (.ok x, db) := by
  simp [loadOwnedStep, getStepOr404, validateWorkerOwnership, validateEpochOr409,
    validateAssignmentEpoch, exec_bind, hx, ho]

theorem transitionOr409_exec {target : StepStatus} (h : target ∈ legalStepTransitions x.status) :
    (transitionOr409 x target).exec db = (.ok target, db) := by
  unfold transitionOr409
  rw [transitionStep_ok.2 ⟨h, rfl⟩]
  rfl

theorem persistStepUpdateOr409_exec {n : String} {from_ : List StepStatus} {u : Bool}
    (values : List StepValue) (hx : db.steps.get? x.id = some x)
    (hg : persistGuard x n from_ u x) :
    (persistStepUpdateOr409 x n from_ values u).exec db =
      (.ok (x.setValues values), db.setStep (x.setValues values)) := by
  have hu := updateSteps_eq values (fun _ => persistGuard_id) hx hg
  simp [persistStepUpdateOr409, exec_bind, hu, setStep_get?_self hx (Step.setValues_id x values)]

theorem markJobRunning_exec (hc : ∃ k body, r.call = .startStep k body) (k : String)
    (steps : List Step) :
    (markJobRunning (fun i => r.ambient.clock (i + 1)) k).exec db =
      (.ok (), db.mapJob k (Job.after r steps) (Job.after_id r steps)) := by
  obtain ⟨k', body, hc⟩ := hc
  unfold markJobRunning
  cases hj : db.jobs.get? k with
  | none => simp [exec_bind, hj, mapJob_none hj]
  | some job =>
    have hf : ∀ j : Job, Job.after r steps j =
        if j.status = .created ∨ j.status = .queued then { j with
          status := .running, progress := max j.progress 1, updatedAt := r.ambient.clock 1 }
        else j := fun j => by simp only [Job.after, hc]
    simp only [bind_eq, exec_bind, exec_read, hj]
    by_cases hs : job.status = .created ∨ job.status = .queued
    · rw [if_pos hs, ← commitJob_exec (Job.after_id r steps) hj, hf, if_pos hs]
    · rw [if_neg hs, mapJob_fixed hj ((hf job).trans (if_neg hs))]
      rfl

theorem markJobAfterStepCompletion_exec (hc : ∃ k body, r.call = .completeStep k body)
    (k : String) :
    (markJobAfterStepCompletion (fun i => r.ambient.clock (i + 1)) k).exec db =
      (.ok (), db.mapJob k (Job.after r (db.steps.select fun s => s.jobId = k))
        (Job.after_id r _)) := by
  obtain ⟨k', body, hc⟩ := hc
  unfold markJobAfterStepCompletion
  cases hj : db.jobs.get? k with
  | none => simp [exec_bind, hj, mapJob_none hj]
  | some job =>
    simp only [bind_eq, exec_bind, exec_read, hj]
    rw [← commitJob_exec (Job.after_id r _) hj]
    simp only [Job.after, hc]

theorem markJobFailed_exec {k' : String} {body : StepFailRequest}
    (hc : r.call = .failStep k' body) (k : String) (steps : List Step) :
    (markJobFailed (fun i => r.ambient.clock (i + 1)) k body.errorMessage).exec db =
      (.ok (), db.mapJob k (Job.after r steps) (Job.after_id r steps)) := by
  unfold markJobFailed
  cases hj : db.jobs.get? k with
  | none => simp [exec_bind, hj, mapJob_none hj]
  | some job =>
    simp only [bind_eq, exec_bind, exec_read, hj]
    rw [← commitJob_exec (Job.after_id r steps) hj]
    simp only [Job.after, hc]

theorem persistGuard_self {n : String} {from_ : List StepStatus} (ho : x.assignedNodeId = some n)
    (hs : x.status ∈ from_) : persistGuard x n from_ false x := by
  simp [persistGuard, ho, hs]

/-- The body that `start_step`, `complete_step` and `fail_step` share. -/
def endpoint (n stepId : String) (e : ℤ) (target : StepStatus) (from_ : List StepStatus)
    (values : StepStatus → List StepValue) (mark : Step → Handler Unit) : Handler Step := do
  let step ← loadOwnedStep stepId n e
  let nextStatus ← transitionOr409 step target
  let updated ← persistStepUpdateOr409 step n from_ (values nextStatus) false
  mark updated
  return updated

theorem startStep_eq (env : Ambient) (n k : String) (body : StepEpochRequest) :
    startStep env n k body = endpoint n k body.assignmentEpoch .running [.assigned]
      (fun s => [.status s, .startedAt (env.clock 0)])
      fun x => markJobRunning (fun i => env.clock (i + 1)) x.jobId := rfl

theorem completeStep_eq (env : Ambient) (n k : String) (body : StepCompleteRequest) :
    completeStep env n k body = endpoint n k body.assignmentEpoch .completed [.running]
      (fun s => [.status s, .outputJson body.outputJson, .completedAt (env.clock 0)])
      fun x => markJobAfterStepCompletion (fun i => env.clock (i + 1)) x.jobId := rfl

theorem failStep_eq (env : Ambient) (n k : String) (body : StepFailRequest) :
    failStep env n k body = endpoint n k body.assignmentEpoch .failed [.assigned, .running]
      (fun s => [.status s, .errorMessage body.errorMessage, .completedAt (env.clock 0)])
      fun x => markJobFailed (fun i => env.clock (i + 1)) x.jobId body.errorMessage := rfl

/-- **An endpoint whose checks pass** writes the step and marks the job. -/
theorem endpoint_exec {n : String} {e : ℤ} {target : StepStatus} {from_ : List StepStatus}
    {values : StepStatus → List StepValue} {mark : Step → Handler Unit} {x' : Step} {db' : Db}
    (hx : db.steps.get? x.id = some x) (ho : x.assignedNodeId = some n)
    (he : e = x.assignmentEpoch) (ht : target ∈ legalStepTransitions x.status)
    (hs : x.status ∈ from_) (hx' : x.setValues (values target) = x')
    (hexec : (mark x').exec (db.setStep x') = (.ok (), db')) :
    (endpoint n x.id e target from_ values mark).exec db = (.ok x', db') := by
  unfold endpoint
  rw [he, bind_eq, exec_bind_ok (loadOwnedStep_exec hx ho), bind_eq,
    exec_bind_ok (transitionOr409_exec ht), bind_eq,
    exec_bind_ok (persistStepUpdateOr409_exec _ hx (persistGuard_self ho hs)), hx', bind_eq,
    exec_bind_ok hexec]
  rfl

theorem setValues_start {k : String} {body : StepEpochRequest} (hc : r.call = .startStep k body) :
    x.setValues [.status .running, .startedAt (r.ambient.clock 0)] = x.after r := by
  simp only [Step.after, hc]
  rfl

theorem setValues_complete {k : String} {body : StepCompleteRequest}
    (hc : r.call = .completeStep k body) :
    x.setValues [.status .completed, .outputJson body.outputJson,
      .completedAt (r.ambient.clock 0)] = x.after r := by
  simp only [Step.after, hc]
  rfl

theorem setValues_fail {k : String} {body : StepFailRequest} (hc : r.call = .failStep k body) :
    x.setValues [.status .failed, .errorMessage body.errorMessage,
      .completedAt (r.ambient.clock 0)] = x.after r := by
  simp only [Step.after, hc]
  rfl

/-- **An admitted request, handled alone, rewrites its step and its job.** -/
theorem exec_admitted (hx : db.steps.get? x.id = some x) (h : Admitted app r x) :
    (app.handle r).exec db = (.ok (.step (x.after r)), db.after r x) := by
  obtain ⟨n, hn, ho⟩ := h.owner
  have hf := h.fence
  have hs := h.status
  unfold App.handle
  rw [h.auth]
  cases hc : r.call with
  | startStep k body =>
    rw [hc] at hf hs
    obtain ⟨rfl, he⟩ := Prod.mk.inj (Option.some.inj hf)
    have hexec : (startStep r.ambient n x.id body).exec db = (.ok (x.after r), db.after r x) := by
      rw [startStep_eq]
      refine endpoint_exec hx ho he ((Call.mem_fromStatuses rfl).1 hs) hs (setValues_start hc) ?_
      rw [Step.after_jobId]
      exact markJobRunning_exec ⟨_, _, hc⟩ _ _
    simp only [bind_eq, ret_bind, hn, exec_bind_ok hexec, pure_eq, exec_ret]
  | completeStep k body =>
    rw [hc] at hf hs
    obtain ⟨rfl, he⟩ := Prod.mk.inj (Option.some.inj hf)
    have hexec : (completeStep r.ambient n x.id body).exec db =
        (.ok (x.after r), db.after r x) := by
      rw [completeStep_eq]
      refine endpoint_exec hx ho he ((Call.mem_fromStatuses rfl).1 hs) hs (setValues_complete hc) ?_
      rw [Step.after_jobId]
      exact markJobAfterStepCompletion_exec ⟨_, _, hc⟩ _
    simp only [bind_eq, ret_bind, hn, exec_bind_ok hexec, pure_eq, exec_ret]
  | failStep k body =>
    rw [hc] at hf hs
    obtain ⟨rfl, he⟩ := Prod.mk.inj (Option.some.inj hf)
    have hexec : (failStep r.ambient n x.id body).exec db = (.ok (x.after r), db.after r x) := by
      rw [failStep_eq]
      refine endpoint_exec hx ho he ((Call.mem_fromStatuses rfl).1 hs) hs (setValues_fail hc) ?_
      rw [Step.after_jobId]
      exact markJobFailed_exec hc _ _
    simp only [bind_eq, ret_bind, hn, exec_bind_ok hexec, pure_eq, exec_ret]
  | _ => rw [hc] at hs; cases hs

/-! ## Rejection -/

theorem requireWorkerAuth_cases (app : App) (h : Headers) :
    requireWorkerAuth app h = .ret () ∨ ∃ e, requireWorkerAuth app h = .throw e := by
  rcases requireWorkerAuth_answers app h with hr | hr | ⟨hr, -⟩
  exacts [Or.inl hr, Or.inr ⟨_, hr⟩, Or.inr ⟨_, hr⟩]

theorem requireWorkerNodeId_cases (h : Headers) :
    (∃ n, requireWorkerNodeId h = .ret n) ∨ ∃ e, requireWorkerNodeId h = .throw e := by
  unfold requireWorkerNodeId
  split
  · exact Or.inr ⟨_, rfl⟩
  · split_ifs
    exacts [Or.inr ⟨_, rfl⟩, Or.inl ⟨_, rfl⟩]

/-- The checks of a lifecycle endpoint pass, or it fails without a write. -/
theorem loadOwnedStep_cases (k n : String) (e : ℤ) (db : Db) :
    (∃ err, (loadOwnedStep k n e).exec db = (.error err, db)) ∨
      ∃ x, db.steps.get? k = some x ∧ x.assignedNodeId = some n ∧ x.assignmentEpoch = e ∧
        (loadOwnedStep k n e).exec db = (.ok x, db) := by
  cases hx : db.steps.get? k with
  | none => exact Or.inl ⟨_, by simp [loadOwnedStep, getStepOr404, exec_bind, hx]; rfl⟩
  | some x =>
    obtain rfl : x.id = k := Table.key_of_get? hx
    by_cases ho : x.assignedNodeId = some n
    · by_cases he : x.assignmentEpoch = e
      · subst he
        exact Or.inr ⟨x, rfl, ho, rfl, loadOwnedStep_exec hx ho⟩
      · exact Or.inl ⟨_, by
          simp [loadOwnedStep, getStepOr404, validateWorkerOwnership, validateEpochOr409,
            validateAssignmentEpoch, exec_bind, hx, ho, he]; rfl⟩
    · exact Or.inl ⟨_, by
        simp [loadOwnedStep, getStepOr404, validateWorkerOwnership, exec_bind, hx, ho]; rfl⟩

theorem transitionOr409_cases (x : Step) (target : StepStatus) (db : Db) :
    (∃ err, (transitionOr409 x target).exec db = (.error err, db)) ∨
      target ∈ legalStepTransitions x.status := by
  by_cases h : target ∈ legalStepTransitions x.status
  · exact Or.inr h
  · unfold transitionOr409 transitionStep
    rw [if_pos h]
    exact Or.inl ⟨_, rfl⟩

theorem loadOwnedStep_silent (k n : String) (e : ℤ) : Silent (loadOwnedStep k n e) := by
  refine Silent.bind (Silent.bind (Silent.read _) fun o => ?_) fun x =>
    Silent.bind ?_ fun _ => Silent.bind ?_ fun _ n s => by simp
  · cases o <;> exact fun n s => by simp [pure]
  · unfold validateWorkerOwnership; split_ifs <;> exact fun n s => by simp
  · unfold validateEpochOr409; split <;> exact fun n s => by simp

theorem transitionOr409_silent (x : Step) (target : StepStatus) :
    Silent (transitionOr409 x target) := by
  unfold transitionOr409; split <;> exact fun n s => by simp

/-- The request fails and has written nothing at any point. -/
def Rejects {α : Type} (p : Handler α) (db : Db) : Prop :=
  (∃ e, p.exec db = (.error e, db)) ∧ ∀ n, p.stop n db = db

theorem Rejects.bind {α β : Type} {p : Handler α} {db : Db} (h : Rejects p db)
    (g : α → Handler β) : Rejects (p.bind g) db := by
  obtain ⟨⟨e, he⟩, hs⟩ := h
  exact ⟨⟨e, exec_bind_error he⟩, fun n => by rw [stop_bind_error g he, hs]⟩

theorem rejects_throw {α : Type} (e : HttpError) (db : Db) :
    Rejects (.throw e : Handler α) db := ⟨⟨e, rfl⟩, fun n => by simp⟩

/-- **An endpoint whose checks fail** writes nothing. -/
theorem endpoint_rejects {k n : String} {e : ℤ} {target : StepStatus} {from_ : List StepStatus}
    {values : StepStatus → List StepValue} {mark : Step → Handler Unit}
    (h : ∀ x, db.steps.get? k = some x → x.assignedNodeId = some n → x.assignmentEpoch = e →
      target ∉ legalStepTransitions x.status) :
    Rejects (endpoint n k e target from_ values mark) db := by
  rcases loadOwnedStep_cases k n e db with herr | ⟨x, hx, ho, he, hok⟩
  · exact Rejects.bind ⟨herr, fun m => loadOwnedStep_silent k n e m db⟩ _
  · have hrej : Rejects (transitionOr409 x target) db :=
      ⟨(transitionOr409_cases x target db).resolve_right (h x hx ho he),
        fun m => transitionOr409_silent x target m db⟩
    obtain ⟨⟨err, ht⟩, hs⟩ := hrej.bind fun nextStatus => do
      let updated ← persistStepUpdateOr409 x n from_ (values nextStatus) false
      mark updated
      return updated
    refine ⟨⟨err, (exec_bind_ok hok).trans ht⟩, fun m => ?_⟩
    unfold endpoint
    rw [bind_eq, stop_bind_ok hok]
    split_ifs
    exacts [loadOwnedStep_silent k n e m db, hs _]

/-- **A rejected request leaves the database as it is.** -/
theorem exec_rejected (hc : r.call.fromStatuses ≠ [])
    (h : ∀ x, db.steps.get? x.id = some x → ¬ Admitted app r x) :
    Rejects (app.handle r) db := by
  unfold App.handle
  rcases requireWorkerAuth_cases app r.headers with hauth | ⟨e, hauth⟩
  swap
  · rw [hauth]; exact (rejects_throw e db).bind _
  rw [hauth]
  rcases requireWorkerNodeId_cases r.headers with ⟨n, hn⟩ | ⟨e, hn⟩
  swap
  · cases hcall : r.call with
    | startStep | completeStep | failStep => rw [hn]; exact rejects_throw e db
    | _ => rw [hcall] at hc; exact absurd rfl hc
  have hadm : ∀ {k e st}, r.call.target? = some (k, st) → r.call.fence? = some (k, e) →
      ∀ x, db.steps.get? k = some x → x.assignedNodeId = some n → x.assignmentEpoch = e →
        st ∉ legalStepTransitions x.status := by
    intro k e st ht hf x hx ho he hs
    obtain rfl : x.id = k := Table.key_of_get? hx
    subst he
    exact h x hx ⟨hauth, ⟨n, hn, ho⟩, hf, (Call.mem_fromStatuses ht).2 hs⟩
  cases hcall : r.call with
  | startStep k body =>
    rw [hcall] at hadm
    have hrej : Rejects (startStep r.ambient n k body) db := endpoint_rejects (hadm rfl rfl)
    rw [hn]
    exact hrej.bind _
  | completeStep k body =>
    rw [hcall] at hadm
    have hrej : Rejects (completeStep r.ambient n k body) db := endpoint_rejects (hadm rfl rfl)
    rw [hn]
    exact hrej.bind _
  | failStep k body =>
    rw [hcall] at hadm
    have hrej : Rejects (failStep r.ambient n k body) db := endpoint_rejects (hadm rfl rfl)
    rw [hn]
    exact hrej.bind _
  | _ => rw [hcall] at hc; exact absurd rfl hc

/-! ## Stopping an accepted request -/

theorem loadOwnedStep_len {n : String} (hx : db.steps.get? x.id = some x)
    (ho : x.assignedNodeId = some n) : (loadOwnedStep x.id n x.assignmentEpoch).len db = 1 := by
  simp [loadOwnedStep, getStepOr404, validateWorkerOwnership, validateEpochOr409,
    validateAssignmentEpoch, Prog.read, len, hx, ho]

theorem persistStepUpdateOr409_stop {n : String} {from_ : List StepStatus}
    (values : List StepValue) (hx : db.steps.get? x.id = some x)
    (hg : persistGuard x n from_ false x) :
    (persistStepUpdateOr409 x n from_ values false).len db = 2 ∧
      ∀ m, (persistStepUpdateOr409 x n from_ values false).stop m db =
        if m = 0 then db else db.setStep (x.setValues values) := by
  have hu := updateSteps_eq values (fun _ => persistGuard_id) hx hg
  constructor
  · simp [persistStepUpdateOr409, Prog.atomic, Prog.read, len, hu,
      setStep_get?_self hx (Step.setValues_id x values)]
  · rintro (_ | _ | m)
    all_goals simp [persistStepUpdateOr409, Prog.atomic, Prog.read, hu,
      setStep_get?_self hx (Step.setValues_id x values)]

/-- **An endpoint stopped inside**: the step is written by the second action, the
    job by the last of `m` more. -/
theorem endpoint_stop {n : String} {e : ℤ} {target : StepStatus} {from_ : List StepStatus}
    {values : StepStatus → List StepValue} {mark : Step → Handler Unit} {x' : Step} {m : ℕ}
    {db' : Db} (hx : db.steps.get? x.id = some x) (ho : x.assignedNodeId = some n)
    (he : e = x.assignmentEpoch) (ht : target ∈ legalStepTransitions x.status)
    (hs : x.status ∈ from_) (hx' : x.setValues (values target) = x')
    (hexec : (mark x').exec (db.setStep x') = (.ok (), db'))
    (hlen : (mark x').len (db.setStep x') = m)
    (hstop : ∀ j < m, (mark x').stop j (db.setStep x') = db.setStep x') (j : ℕ) :
    (endpoint n x.id e target from_ values mark).stop j db =
      if j < 2 then db else if j < 3 + m then db.setStep x' else db' := by
  subst he
  unfold endpoint
  simp only [bind_eq, pure_eq]
  have htr : transitionOr409 x target = .ret target := by
    unfold transitionOr409
    rw [transitionStep_ok.2 ⟨ht, rfl⟩]
  obtain ⟨hpl, hps⟩ := persistStepUpdateOr409_stop (values target) hx (persistGuard_self ho hs)
  have hpe := persistStepUpdateOr409_exec (values target) hx (persistGuard_self ho hs)
  rw [stop_bind_ok (loadOwnedStep_exec hx ho), loadOwnedStep_len hx ho,
    loadOwnedStep_silent _ _ _ j db, htr, ret_bind, stop_bind_ok hpe, hpl, hps, hx',
    stop_bind_ok hexec, hlen, stop_ret]
  by_cases h1 : j < 2
  · rw [if_pos h1]
    split_ifs
    all_goals first | rfl | omega
  · rw [if_neg h1, if_neg (by omega), if_neg (show ¬ j - 1 = 0 by omega)]
    by_cases h2 : j < 3 + m
    · rw [if_pos h2]
      split_ifs with h3 h4
      · rfl
      · exact hstop _ h4
      · omega
    · rw [if_neg h2, if_neg (by omega), if_neg (by omega)]

theorem markJobAfterStepCompletion_stop (db : Db) (clock : ℕ → Instant) {k : String}
    (hj : (db.jobs.get? k).isSome) : (markJobAfterStepCompletion clock k).len db = 3 ∧
      ∀ j < 3, (markJobAfterStepCompletion clock k).stop j db = db := by
  obtain ⟨job, hj⟩ := Option.isSome_iff_exists.1 hj
  constructor
  · simp [markJobAfterStepCompletion, commitJob, Prog.atomic, Prog.read, len, hj]
  · rintro (_ | _ | _ | j) hlt
    · simp
    · simp [markJobAfterStepCompletion, Prog.read, hj]
    · simp [markJobAfterStepCompletion, Prog.read, hj]
    · omega

theorem markJobFailed_stop (db : Db) (clock : ℕ → Instant) {k : String} (msg : String)
    (hj : (db.jobs.get? k).isSome) : (markJobFailed clock k msg).len db = 2 ∧
      ∀ j < 2, (markJobFailed clock k msg).stop j db = db := by
  obtain ⟨job, hj⟩ := Option.isSome_iff_exists.1 hj
  constructor
  · simp [markJobFailed, commitJob, Prog.atomic, Prog.read, len, hj]
  · rintro (_ | _ | j) hlt
    · simp
    · simp [markJobFailed, Prog.read, hj]
    · omega

/-- The number of actions of an accepted request up to the commit of its job. -/
def Call.jobCommit : Call → ℕ
  | .completeStep .. => 6
  | _ => 5

/-- **An accepted `complete` or `fail` stopped after `j` actions**: nothing, the
    step alone, or everything is written. -/
theorem stop_admitted (hx : db.steps.get? x.id = some x) (h : Admitted app r x)
    (hj : (db.jobs.get? x.jobId).isSome) (hc : ∀ k body, r.call ≠ .startStep k body) (j : ℕ) :
    (app.handle r).stop j db = if j < 2 then db
      else if j < r.call.jobCommit then db.setStep (x.after r) else db.after r x := by
  obtain ⟨n, hn, ho⟩ := h.owner
  have hf := h.fence
  have hs := h.status
  unfold App.handle
  rw [h.auth]
  cases hcall : r.call with
  | startStep k body => exact absurd hcall (hc k body)
  | completeStep k body =>
    rw [hcall] at hf hs
    obtain ⟨rfl, he⟩ := Prod.mk.inj (Option.some.inj hf)
    obtain ⟨hlen, hstop⟩ := markJobAfterStepCompletion_stop (db.setStep (x.after r))
      (fun i => r.ambient.clock (i + 1)) hj
    simp only [bind_eq, ret_bind, hn, pure_eq, stop_bind_ret, completeStep_eq]
    refine endpoint_stop (m := 3) hx ho he ((Call.mem_fromStatuses rfl).1 hs) hs
      (setValues_complete hcall) ?_ ?_ ?_ j
    all_goals rw [Step.after_jobId]
    · exact markJobAfterStepCompletion_exec ⟨_, _, hcall⟩ _
    · exact hlen
    · exact hstop
  | failStep k body =>
    rw [hcall] at hf hs
    obtain ⟨rfl, he⟩ := Prod.mk.inj (Option.some.inj hf)
    obtain ⟨hlen, hstop⟩ := markJobFailed_stop (db.setStep (x.after r))
      (fun i => r.ambient.clock (i + 1)) body.errorMessage hj
    simp only [bind_eq, ret_bind, hn, pure_eq, stop_bind_ret, failStep_eq]
    refine endpoint_stop (m := 2) hx ho he ((Call.mem_fromStatuses rfl).1 hs) hs
      (setValues_fail hcall) ?_ ?_ ?_ j
    all_goals rw [Step.after_jobId]
    · exact markJobFailed_exec hcall _ _
    · exact hlen
    · exact hstop
  | _ => rw [hcall] at hs; cases hs

end MediaOrchard
