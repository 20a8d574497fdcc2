/-
  Jobs with one step, under interleaving.

  * `handle_owes`: a `start`, `complete` or `fail` handler that has changed its
    step owes the job the matching update;
  * `handle_marks`: a `start` writes jobs only to mark them as running;
  * `job_step_agree`: without recovery, job and step agree whenever no handler
    is in flight, if no `start` writes its job after the job became terminal.
-/
import MediaOrchard.Proof.Exec
import MediaOrchard.Proof.Rows

namespace MediaOrchard

open Keyed Interleave Prog

/-! ## What a handler owes its job -/

/-- The job status that goes with a step status. -/
def jobStatusOf : StepStatus → JobStatus
  | .running => .running
  | .completed => .completed
  | .failed => .failed
  | _ => .queued

/-- Step `k` of job `jobId` moves to `st`. -/
def Moves (k jobId : String) (st : StepStatus) (db db' : Db) : Prop :=
  ∃ x x', db.steps.get? k = some x ∧ db'.steps.get? k = some x' ∧ x.jobId = jobId ∧
    x.status ≠ st ∧ x'.status = st

/-- Step `k` is the only step of `jobId`, its status is `st`, and the job row does
    not say so yet. -/
structure Pending (k jobId : String) (st : StepStatus) (db : Db) : Prop where
  step : ∃ x, db.steps.get? k = some x ∧ x.jobId = jobId ∧ x.status = st
  single : ∀ y ∈ db.steps.rows, y.jobId = jobId → y.id = k
  job : ∃ j, db.jobs.get? jobId = some j ∧
    (j.status = .queued ∨ st ≠ .running ∧ j.status = .running)

/-- The job row is written with status `s`. -/
def JobBecomes (jobId : String) (s : JobStatus) (_ db' : Db) : Prop :=
  ∃ j, db'.jobs.get? jobId = some j ∧ j.status = s

/-- The program writes the job before it ends. -/
def Owes {α : Type} (k jobId : String) (st : StepStatus) (p : Handler α) : Prop :=
  Before (Pending k jobId st) (JobBecomes jobId (jobStatusOf st)) (fun _ => False) p

variable {k jobId : String} {st : StepStatus} {r : Request}

theorem not_moves (db : Db) : ¬ Moves k jobId st db db := by
  rintro ⟨x, x', hx, hx', -, hne, he⟩
  cases hx.symm.trans hx'
  exact hne he

theorem commitJob_before {old new : Job} {s : JobStatus} {fin : Except HttpError Unit → Prop}
    (hid : old.id = jobId) (hn : new.status = s) (hs : s ≠ old.status) :
    Before (Pending k jobId st) (JobBecomes jobId s) fin (commitJob old new) := by
  refine Before.atomic fun db h => Or.inl ?_
  obtain ⟨j, hj, -⟩ := h.job
  have hk : j.id = jobId := Table.key_of_get? hj
  refine ⟨Job.flush old new j, ?_, ?_⟩
  · simp [hj, hk, hid]
  · simp [Job.flush, flushCol, hn, hs]

theorem markJobRunning_before {clock : ℕ → Instant} {fin : Except HttpError Unit → Prop} :
    Before (Pending k jobId .running) (JobBecomes jobId .running) fin
      (markJobRunning clock jobId) := by
  refine Before.bind (Before.read fun db h => Or.inr ?_)
  obtain ⟨j, hj, hs⟩ := h.job
  have hq : j.status = .queued := hs.resolve_right fun h => h.1 rfl
  simp only [hj, hq, or_true, if_true]
  exact commitJob_before (Table.key_of_get? hj) rfl (by simp [hq])

theorem markJobFailed_before {clock : ℕ → Instant} {msg : String}
    {fin : Except HttpError Unit → Prop} :
    Before (Pending k jobId .failed) (JobBecomes jobId .failed) fin
      (markJobFailed clock jobId msg) := by
  refine Before.bind (Before.read fun db h => Or.inr ?_)
  obtain ⟨j, hj, hs⟩ := h.job
  simp only [hj]
  exact commitJob_before (Table.key_of_get? hj) rfl (by rcases hs with hs | hs <;> simp [hs])

theorem markJobAfterStepCompletion_before {clock : ℕ → Instant}
    {fin : Except HttpError Unit → Prop} :
    Before (Pending k jobId .completed) (JobBecomes jobId .completed) fin
      (markJobAfterStepCompletion clock jobId) := by
  refine Before.bind (Before.read fun db h => Or.inr ?_)
  obtain ⟨j, hj, hs⟩ := h.job
  simp only [hj]
  refine Before.bind (Before.read fun db h => Or.inr ?_)
  -- the snapshot holds the one step, completed
  obtain ⟨x, hx, hxj, hxs⟩ := h.step
  have hall : ∀ y ∈ db.steps.select fun s => s.jobId = jobId, y.status = .completed := by
    intro y hy
    obtain ⟨hy, hyj⟩ : y ∈ db.steps.rows ∧ y.jobId = jobId := by simpa [Table.mem_select] using hy
    have hyk : y.id = k := h.single y hy hyj
    rwa [Table.eq_of_key hy (Table.mem_of_get? hx) (hyk.trans (Table.key_of_get? hx).symm)]
  have hne : (db.steps.select fun s => s.jobId = jobId) ≠ [] :=
    List.ne_nil_of_mem (a := x) (by simp [Table.mem_select, Table.mem_of_get? hx, hxj])
  dsimp only
  rw [Job.afterStepCompletion_all hne hall]
  exact commitJob_before (Table.key_of_get? hj) rfl (by rcases hs with hs | hs <;> simp [hs])

theorem commitJob_then {T : Handler Unit → Prop} (old new : Job) :
    Then (Moves k jobId st) T (commitJob old new) :=
  Then.atomic fun db h => absurd h (by
    rintro ⟨x, x', hx, hx', -, hne, he⟩
    cases hx.symm.trans hx'
    exact hne he)

theorem markJobRunning_then {T : Handler Unit → Prop} (clock : ℕ → Instant) (j : String) :
    Then (Moves k jobId st) T (markJobRunning clock j) := by
  refine Then.bind (Then.read not_moves _) fun o => ?_
  cases o with
  | none => trivial
  | some job =>
    dsimp only
    split_ifs
    exacts [commitJob_then _ _, trivial]

theorem markJobFailed_then {T : Handler Unit → Prop} (clock : ℕ → Instant) (j msg : String) :
    Then (Moves k jobId st) T (markJobFailed clock j msg) := by
  refine Then.bind (Then.read not_moves _) fun o => ?_
  cases o with
  | none => trivial
  | some job => exact commitJob_then _ _

theorem markJobAfterStepCompletion_then {T : Handler Unit → Prop} (clock : ℕ → Instant)
    (j : String) : Then (Moves k jobId st) T (markJobAfterStepCompletion clock j) := by
  refine Then.bind (Then.read not_moves _) fun o => ?_
  cases o with
  | none => trivial
  | some job => exact Then.bind (Then.read not_moves _) fun steps => commitJob_then _ _

theorem loadOwnedStep_then {T : Handler Step → Prop} (stepId n : String) (e : ℤ) :
    Then (Moves k jobId st) T (loadOwnedStep stepId n e) := by
  refine Then.bind (Then.bind (Then.read not_moves _) fun o => ?_) fun x =>
    Then.bind ?_ fun _ => Then.bind ?_ fun _ => trivial
  · cases o <;> trivial
  · unfold validateWorkerOwnership; split_ifs <;> trivial
  · unfold validateEpochOr409; split <;> trivial

/-- A guarded update that moves step `k` has hit its row. -/
theorem updateSteps_moves {guard : Step → Bool} {values : List StepValue} {sid : String} {db : Db}
    (hid : ∀ x, guard x → x.id = sid)
    (h : Moves k jobId st db (updateSteps guard values db).2) :
    (updateSteps guard values db).1 = 1 ∧ sid = k := by
  obtain ⟨x, x', hx, hx', -, hne, he⟩ := h
  unfold updateSteps at hx' ⊢
  split_ifs at hx' ⊢ with hc
  · refine ⟨rfl, ?_⟩
    simp only [Table.get?_update, hx, Option.map_some, Option.some.injEq] at hx'
    split_ifs at hx' with hg
    · exact (hid x hg).symm.trans (Table.key_of_get? hx)
    · exact absurd (hx' ▸ he) hne
  · cases hx.symm.trans hx'
    exact absurd he hne

/-- A guarded update that has moved its step leads on to the mark of the job. -/
theorem persist_owes {β : Type} {step : Step} {n : String} {from_ : List StepStatus}
    {values : List StepValue} {mark : Step → Handler Unit} {g : Step → Handler β}
    (hmark : ∀ x fin, x.jobId = jobId →
      Before (Pending k jobId st) (JobBecomes jobId (jobStatusOf st)) fin (mark x))
    (hthen : ∀ x (T : Handler Unit → Prop), Then (Moves k jobId st) T (mark x)) :
    Then (Moves k jobId st) (fun q => Owes k jobId st (q.bind g))
      ((persistStepUpdateOr409 step n from_ values false).bind fun updated =>
        (mark updated).bind fun _ => .ret updated) := by
  refine Then.bind ?_ fun updated => Then.bind (hthen _ _) fun _ => trivial
  refine Then.bind (Then.atomic fun db hw => ?_) fun rowcount => ?_
  · obtain ⟨h1, hk⟩ := updateSteps_moves (fun _ => persistGuard_id) hw
    simp only [ret_bind, h1, ne_eq, not_true_eq_false, if_false]
    refine Before.bind (Before.bind (Before.bind (Before.read fun db h => Or.inr ?_)))
    obtain ⟨x, hx, hxj, -⟩ := h.step
    rw [hk, hx]
    exact Before.bind (hmark x _ hxj)
  · split_ifs
    · trivial
    · refine Then.bind (Then.read not_moves _) fun o => ?_
      cases o <;> trivial

/-- A request moves the step it is fenced to. -/
theorem Call.target?_fence? {call : Call} {k k' : String} {e : ℤ}
    (h : call.target? = some (k, st)) (hf : call.fence? = some (k', e)) : k' = k := by
  cases call with
  | startStep | completeStep | failStep =>
    simp only [Call.target?, Call.fence?, Option.some.injEq, Prod.mk.injEq] at h hf
    exact hf.1.symm.trans h.1
  | _ => cases h

theorem requireWorkerAuth_then {app : App} {W : Db → Db → Prop} {T : Handler Unit → Prop}
    (h : Headers) : Then W T (requireWorkerAuth app h) := by
  rcases requireWorkerAuth_cases app h with h | ⟨e, h⟩ <;> rw [h] <;> trivial

theorem requireWorkerNodeId_then {W : Db → Db → Prop} {T : Handler String → Prop}
    (h : Headers) : Then W T (requireWorkerNodeId h) := by
  rcases requireWorkerNodeId_cases h with ⟨n, h⟩ | ⟨e, h⟩ <;> rw [h] <;> trivial

theorem transitionOr409_then {W : Db → Db → Prop} {T : Handler StepStatus → Prop} (x : Step)
    (target : StepStatus) : Then W T (transitionOr409 x target) := by
  unfold transitionOr409
  split <;> trivial

/-- **An endpoint that has moved its step owes the job update.** -/
theorem endpoint_owes {β : Type} {n stepId : String} {e : ℤ} {target : StepStatus}
    {from_ : List StepStatus} {values : StepStatus → List StepValue} {mark : Step → Handler Unit}
    {g : Step → β}
    (hmark : ∀ x fin, x.jobId = jobId →
      Before (Pending k jobId st) (JobBecomes jobId (jobStatusOf st)) fin (mark x))
    (hthen : ∀ x (T : Handler Unit → Prop), Then (Moves k jobId st) T (mark x)) :
    Then (Moves k jobId st) (Owes k jobId st)
      ((endpoint n stepId e target from_ values mark).bind fun x => .ret (g x)) := by
  refine Then.bind ?_ fun _ => trivial
  exact Then.bind (loadOwnedStep_then _ _ _) fun step =>
    Then.bind (transitionOr409_then _ _) fun next => persist_owes hmark hthen

/-- **A handler that has moved its step owes the job update.** -/
theorem handle_owes (app : App) (h : r.call.target? = some (k, st)) (jobId : String) :
    Then (Moves k jobId st) (Owes k jobId st) (app.handle r) := by
  refine Then.bind (requireWorkerAuth_then _) fun _ => ?_
  cases hc : r.call with
  | startStep stepId body =>
    rw [hc] at h
    cases h
    refine Then.bind (requireWorkerNodeId_then _) fun n => ?_
    exact endpoint_owes (fun x fin hx => hx ▸ markJobRunning_before)
      fun x T => markJobRunning_then _ _
  | completeStep stepId body =>
    rw [hc] at h
    cases h
    refine Then.bind (requireWorkerNodeId_then _) fun n => ?_
    exact endpoint_owes (fun x fin hx => hx ▸ markJobAfterStepCompletion_before)
      fun x T => markJobAfterStepCompletion_then _ _
  | failStep stepId body =>
    rw [hc] at h
    cases h
    refine Then.bind (requireWorkerNodeId_then _) fun n => ?_
    exact endpoint_owes (fun x fin hx => hx ▸ markJobFailed_before)
      fun x T => markJobFailed_then _ _ _
  | _ => rw [hc] at h; cases h

/-! ## What a `start` may write -/

/-- The program is about to commit the update of `mark_job_running` to the job it
    loaded as `old`. -/
def MarksRunning {α : Type} (old : Job) (p : Handler α) : Prop :=
  ∃ now g, p = (commitJob old { old with
    status := .running, progress := max old.progress 1, updatedAt := now }).bind g

/-- The next action leaves the jobs, or marks one as running. -/
def OnlyMarks {α : Type} (p : Handler α) : Prop :=
  (∀ f k, p = .act f k → ∀ db, (f db).jobs = db.jobs) ∨ ∃ old, MarksRunning old p

theorem OnlyMarks.bind {α β : Type} {p : Handler α} {g : α → Handler β} (hp : Every OnlyMarks p)
    (hg : ∀ a, Every OnlyMarks (g a)) : Every OnlyMarks (p.bind g) := by
  refine Every.bind hp (fun f k h => ?_) hg
  rcases h with h | ⟨old, now, g', h⟩
  · refine Or.inl fun f' k' he => ?_
    cases he
    exact h f k rfl
  · exact Or.inr ⟨old, now, fun a => (g' a).bind g, by rw [h]; rfl⟩

theorem OnlyMarks.read {α : Type} (g : Db → α) : Every OnlyMarks (Prog.read g : Handler α) :=
  ⟨Or.inl fun f k he db => by cases he; rfl, fun _ => trivial⟩

theorem markJobRunning_marks (clock : ℕ → Instant) (j : String) :
    Every OnlyMarks (markJobRunning clock j) := by
  refine OnlyMarks.bind (OnlyMarks.read _) fun o => ?_
  cases o with
  | none => trivial
  | some job =>
    dsimp only
    split_ifs
    · exact ⟨Or.inr ⟨job, clock 0, .ret, rfl⟩, fun _ => trivial⟩
    · trivial

theorem loadOwnedStep_marks (stepId n : String) (e : ℤ) :
    Every OnlyMarks (loadOwnedStep stepId n e) := by
  refine OnlyMarks.bind (OnlyMarks.bind (OnlyMarks.read _) fun o => ?_) fun x =>
    OnlyMarks.bind ?_ fun _ => OnlyMarks.bind ?_ fun _ => trivial
  · cases o <;> trivial
  · unfold validateWorkerOwnership; split_ifs <;> trivial
  · unfold validateEpochOr409; split <;> trivial

theorem persistStepUpdateOr409_marks (step : Step) (n : String) (from_ : List StepStatus)
    (values : List StepValue) :
    Every OnlyMarks (persistStepUpdateOr409 step n from_ values false) := by
  refine OnlyMarks.bind ⟨Or.inl fun f k he db => ?_, fun _ => trivial⟩ fun rowcount => ?_
  · cases he
    dsimp only [updateSteps]
    split_ifs <;> rfl
  · split_ifs
    · trivial
    · refine OnlyMarks.bind (OnlyMarks.read _) fun o => ?_
      cases o <;> trivial

/-- **A `start` writes jobs only to mark them as running.** -/
theorem handle_marks (app : App) {stepId : String} {body : StepEpochRequest}
    (hc : r.call = .startStep stepId body) : Every OnlyMarks (app.handle r) := by
  refine OnlyMarks.bind ?_ fun _ => ?_
  · rcases requireWorkerAuth_cases app r.headers with h | ⟨e, h⟩ <;> rw [h] <;> trivial
  rw [hc]
  refine OnlyMarks.bind ?_ fun n => OnlyMarks.bind ?_ fun _ => trivial
  · rcases requireWorkerNodeId_cases r.headers with ⟨n, h⟩ | ⟨e, h⟩ <;> rw [h] <;> trivial
  refine OnlyMarks.bind (loadOwnedStep_marks _ _ _) fun step => OnlyMarks.bind ?_ fun next =>
    OnlyMarks.bind (persistStepUpdateOr409_marks _ _ _ _) fun updated =>
      OnlyMarks.bind (markJobRunning_marks _ _) fun _ => trivial
  unfold transitionOr409
  split <;> trivial

/-- If the request is a `start`, then the next action marks at most. -/
def StartMarks (r : Request) (p : Handler Response) : Prop :=
  (∃ stepId body, r.call = .startStep stepId body) → OnlyMarks p

theorem handle_startMarks (app : App) (r : Request) : Every (StartMarks r) (app.handle r) := by
  by_cases hr : ∃ stepId body, r.call = .startStep stepId body
  · obtain ⟨stepId, body, hc⟩ := hr
    exact (handle_marks app hc).imp fun p hp _ => hp
  · exact Every.of_forall (fun p h => absurd h hr) _

/-! ## Runs without recovery -/

variable {app : App} {db₀ : Db} {tr : List (Trans app.controller)}
  {c : Conf Db HttpError Response Request}

/-- A handler in flight owes job `jobId` the update for step `k`. -/
def Owed (c : Conf Db HttpError Response Request) (k jobId : String) (st : StepStatus) : Prop :=
  ∃ (i : ℕ) (r : Request) (p : Handler Response), c.procs[i]? = some (r, p) ∧ Owes k jobId st p

/-- Nothing is owed when no handler is in flight. -/
theorem not_owed (hq : c.Quiet) : ¬ Owed c k jobId st := by
  rintro ⟨i, r, p, hp, ho⟩
  rcases hq _ (List.mem_of_getElem? hp) with ⟨a, he⟩ | ⟨e, he⟩ <;>
    · simp only at he
      subst he
      exact ho

/-- What is owed is still owed after an action, or has been paid by it. -/
theorem Owed.step (app : App) (h : Owed c k jobId st) (hp : Pending k jobId st c.db)
    (a : Act Request String) : JobBecomes jobId (jobStatusOf st) c.db (app.controller.step c a).db ∨
      Owed (app.controller.step c a) k jobId st := by
  obtain ⟨i, r, p, hi, ho⟩ := h
  rcases Service.step_before (S := app.controller) hi ho hp a with ⟨-, hw⟩ | ⟨p', hi', ho'⟩
  · exact Or.inl hw
  · exact Or.inr ⟨i, r, p', hi', ho'⟩

/-- A handler that moves step `k` in a run owes the job afterwards. -/
theorem App.Run.owes (h : app.Run db₀ tr c) {t : Trans app.controller} (ht : t ∈ tr) {i : ℕ}
    (hby : t.By i r) (htar : r.call.target? = some (k, st))
    (hm : Moves k jobId st t.pre.db t.post.db) : Owed t.post k jobId st := by
  have hnext := Service.Run.next
    (W := fun r s s' => r.call.target? = some (k, st) ∧ Moves k jobId st s s')
    (T := fun _ => Owes k jobId st) (fun _ s h => not_moves s h.2) (fun r => ?_) h
  · obtain ⟨p, hp, ho⟩ := hnext.2 t ht i r hby ⟨htar, hm⟩
    exact ⟨i, r, p, hp, ho⟩
  · by_cases htar : r.call.target? = some (k, st)
    · simp only [htar, true_and]
      exact handle_owes app htar jobId
    · exact Then.of_never (fun s s' h => htar h.1) _

/-- How far the job row has followed its step. -/
inductive Phase (c : Conf Db HttpError Response Request) (x : Step) (j : Job) : Prop
  | waiting (hs : x.status = .queued ∨ x.status = .assigned) (hj : j.status = .queued)
      (hn : x.startedAt = none)
  | told (hs : x.status = .running ∨ x.status = .completed ∨ x.status = .failed)
      (hj : j.status = jobStatusOf x.status)
  | owed (hs : x.status = .running ∨ x.status = .completed ∨ x.status = .failed)
      (hj : j.status = .queued ∨ x.status ≠ .running ∧ j.status = .running)
      (ho : Owed c x.id j.id x.status)

/-- What a run without recovery keeps, if every job has one step. -/
structure RaceInv (c : Conf Db HttpError Response Request) : Prop where
  single : ∀ x ∈ c.db.steps.rows, ∀ y ∈ c.db.steps.rows, x.jobId = y.jobId → x = y
  owned : ∀ x ∈ c.db.steps.rows, (c.db.jobs.get? x.jobId).isSome
  phase : ∀ x ∈ c.db.steps.rows, ∀ j ∈ c.db.jobs.rows, x.jobId = j.id → Phase c x j

theorem RaceInv.pending (h : RaceInv c) {x : Step} {j : Job} (hx : x ∈ c.db.steps.rows)
    (hj : j ∈ c.db.jobs.rows) (hxj : x.jobId = j.id)
    (hs : j.status = .queued ∨ x.status ≠ .running ∧ j.status = .running) :
    Pending x.id j.id x.status c.db where
  step := ⟨x, Table.get?_of_mem hx, hxj, rfl⟩
  single y hy hyj := by rw [h.single y hy x hx (hyj.trans hxj.symm)]
  job := ⟨j, Table.get?_of_mem hj, hs⟩

/-- A phase lasts while neither row changes what it depends on. -/
theorem Phase.frame {x x' : Step} {j j' : Job} {a : Act Request String} (h : Phase c x j)
    (hi : RaceInv c) (hx : x ∈ c.db.steps.rows) (hj : j ∈ c.db.jobs.rows) (hxj : x.jobId = j.id)
    (hid : x'.id = x.id) (hs : x'.status = x.status) (hn : x'.startedAt = x.startedAt)
    (hj' : (app.controller.step c a).db.jobs.get? j.id = some j') (hjs : j'.status = j.status) :
    Phase (app.controller.step c a) x' j' := by
  have hjid : j'.id = j.id := Table.key_of_get? hj'
  cases h with
  | waiting h1 h2 h3 => exact .waiting (hs ▸ h1) (hjs.trans h2) (hn.trans h3)
  | told h1 h2 => exact .told (hs ▸ h1) (by rw [hjs, hs, h2])
  | owed h1 h2 ho =>
    rcases ho.step app (hi.pending hx hj hxj h2) a with ⟨j'', hj'', hst⟩ | ho'
    · cases hj'.symm.trans hj''
      exact .told (hs ▸ h1) (by rw [hst, hs])
    · exact .owed (hs ▸ h1) (by rw [hs, hjs]; exact h2) (by rw [hid, hjid, hs]; exact ho')

/-- The request that writes a row names it. -/
theorem StepWrite.target {db : Db} {x x' : Step} (h : StepWrite db r x x') :
    x'.status = x.status ∧ x'.startedAt = x.startedAt ∨
      (x.status = .queued ∧ x'.status = .assigned ∧ x'.startedAt = x.startedAt) ∨
      r.call.target? = some (x.id, x'.status) ∧
        (x.status = .assigned ∧ x'.status = .running ∨
          x.status = .running ∧ x'.status = .completed ∨
          (x.status = .assigned ∨ x.status = .running) ∧ x'.status = .failed) := by
  cases h with
  | assign _ hs => exact Or.inr (Or.inl ⟨hs, rfl, rfl⟩)
  | claimNext | claim | progress => exact Or.inl ⟨rfl, rfl⟩
  | start hc hf hs =>
    have := hf.fence
    simp only [hc, Call.fence?, Option.some.injEq, Prod.mk.injEq] at this
    exact Or.inr (Or.inr ⟨by rw [hc, this.1]; rfl, Or.inl ⟨hs, rfl⟩⟩)
  | complete hc hf hs =>
    have := hf.fence
    simp only [hc, Call.fence?, Option.some.injEq, Prod.mk.injEq] at this
    exact Or.inr (Or.inr ⟨by rw [hc, this.1]; rfl, Or.inr (Or.inl ⟨hs, rfl⟩)⟩)
  | fail hc hf hs =>
    have := hf.fence
    simp only [hc, Call.fence?, Option.some.injEq, Prod.mk.injEq] at this
    exact Or.inr (Or.inr ⟨by rw [hc, this.1]; rfl, Or.inr (Or.inr ⟨hs, rfl⟩)⟩)

/-- A write of the step row takes its job to the matching phase. -/
theorem Phase.write {x x' : Step} {j : Job} {a : Act Request String} {i : ℕ}
    (hrun : app.Run db₀ (⟨c, a⟩ :: tr) (app.controller.step c a))
    (hby : Trans.By (⟨c, a⟩ : Trans app.controller) i r) (h : Phase c x j) (hi : RaceInv c)
    (hx : x ∈ c.db.steps.rows) (hj : j ∈ c.db.jobs.rows) (hxj : x.jobId = j.id)
    (hw : StepWrite c.db r x x')
    (hx' : (app.controller.step c a).db.steps.get? x.id = some x')
    (hj' : (app.controller.step c a).db.jobs.get? j.id = some j) :
    Phase (app.controller.step c a) x' j := by
  have hid : x'.id = x.id := Table.key_of_get? hx'
  rcases hw.target with ⟨hs, hn⟩ | ⟨hs, hs', hn⟩ | ⟨htar, hcase⟩
  · exact h.frame hi hx hj hxj hid hs hn hj' rfl
  · cases h with
    | waiting _ h2 h3 => exact .waiting (by simp [hs']) h2 (hn.trans h3)
    | told h1 | owed h1 => simp [hs] at h1
  · have hne : x.status ≠ x'.status := by
      rcases hcase with ⟨h1, h2⟩ | ⟨h1, h2⟩ | ⟨h1 | h1, h2⟩ <;> simp [h1, h2]
    have ho : Owed (app.controller.step c a) x.id j.id x'.status :=
      hrun.owes (t := ⟨c, a⟩) List.mem_cons_self hby htar
        ⟨x, x', Table.get?_of_mem hx, hx', hxj, hne, rfl⟩
    rw [← hid] at ho
    refine .owed ?_ ?_ ho
    · rcases hcase with ⟨-, h2⟩ | ⟨-, h2⟩ | ⟨-, h2⟩ <;> simp [h2]
    · cases h with
      | waiting _ h2 => exact Or.inl h2
      | told h1 h2 =>
        rcases hcase with ⟨h3, h4⟩ | ⟨h3, h4⟩ | ⟨h3 | h3, h4⟩ <;>
          simp_all [jobStatusOf]
      | owed h1 h2 =>
        rcases hcase with ⟨h3, h4⟩ | ⟨h3, h4⟩ | ⟨h3 | h3, h4⟩ <;> simp_all

section Step
variable {a : Act Request String} {i : ℕ}

/-- Changes of step rows keep the invariant. -/
theorem RaceInv.write (hi : RaceInv c)
    (hrun : app.Run db₀ (⟨c, a⟩ :: tr) (app.controller.step c a))
    (hby : Trans.By (⟨c, a⟩ : Trans app.controller) i r) (f : Step → Step) (hf)
    (hs : (app.controller.step c a).db.steps = c.db.steps.update f hf)
    (hj : (app.controller.step c a).db.jobs = c.db.jobs)
    (hw : ∀ x ∈ c.db.steps.rows, f x = x ∨ StepWrite c.db r x (f x)) :
    RaceInv (app.controller.step c a) := by
  have hjob : ∀ x ∈ c.db.steps.rows, (f x).jobId = x.jobId := fun x hx =>
    (kept_of_write (hw x hx)).job
  have hmem : ∀ x', x' ∈ (app.controller.step c a).db.steps.rows ↔
      ∃ x ∈ c.db.steps.rows, f x = x' := by
    intro x'
    rw [hs]
    exact Table.mem_update
  constructor
  · intro x' hx' y' hy' hxy
    obtain ⟨x, hx, rfl⟩ := (hmem x').1 hx'
    obtain ⟨y, hy, rfl⟩ := (hmem y').1 hy'
    rw [hi.single x hx y hy ((hjob x hx).symm.trans (hxy.trans (hjob y hy)))]
  · intro x' hx'
    obtain ⟨x, hx, rfl⟩ := (hmem x').1 hx'
    rw [hjob x hx, hj]
    exact hi.owned x hx
  · intro x' hx' j hjm hxj
    obtain ⟨x, hx, rfl⟩ := (hmem x').1 hx'
    rw [hj] at hjm
    rw [hjob x hx] at hxj
    have hphase := hi.phase x hx j hjm hxj
    have hj' : (app.controller.step c a).db.jobs.get? j.id = some j := by
      rw [hj]; exact Table.get?_of_mem hjm
    rcases hw x hx with he | hw
    · rw [he]
      exact hphase.frame hi hx hjm hxj rfl rfl rfl hj' rfl
    · refine hphase.write hrun hby hi hx hjm hxj hw ?_ hj'
      rw [hs, Table.get?_update, show c.db.steps.get? x.id = some x from Table.get?_of_mem hx]
      rfl

/-- A transition that changes neither steps nor jobs keeps the invariant. -/
theorem RaceInv.same (hi : RaceInv c) (hs : (app.controller.step c a).db.steps = c.db.steps)
    (hj : (app.controller.step c a).db.jobs = c.db.jobs) :
    RaceInv (app.controller.step c a) := by
  refine ⟨by rw [hs]; exact hi.single, by rw [hs, hj]; exact hi.owned, fun x hx j hjm hxj => ?_⟩
  rw [hs] at hx
  rw [hj] at hjm
  exact (hi.phase x hx j hjm hxj).frame hi hx hjm hxj rfl rfl rfl
    (by rw [hj]; exact Table.get?_of_mem hjm) rfl

/-- `create_job` adds a waiting step with its job. -/
theorem RaceInv.create (hi : RaceInv c) {body : JobCreateRequest} {inputFile outputDir : String}
    (hj : c.db.jobs.insert? (newRows app r.ambient body inputFile outputDir).1 =
      some (app.controller.step c a).db.jobs)
    (hs : c.db.steps.insert? (newRows app r.ambient body inputFile outputDir).2.2 =
      some (app.controller.step c a).db.steps) :
    RaceInv (app.controller.step c a) := by
  obtain ⟨hjn, hjr⟩ := Table.insert?_eq_some hj
  obtain ⟨hsn, hsr⟩ := Table.insert?_eq_some hs
  set job := (newRows app r.ambient body inputFile outputDir).1 with hjob
  set step := (newRows app r.ambient body inputFile outputDir).2.2 with hstep
  have hnew : step.jobId = job.id := rfl
  -- no old step belongs to the new job
  have hold : ∀ x ∈ c.db.steps.rows, x.jobId ≠ job.id := fun x hx he => by
    have := hi.owned x hx
    rw [he] at this
    exact absurd (this.symm.trans (congrArg Option.isSome hjn)) (by decide)
  have hmem : ∀ x, x ∈ (app.controller.step c a).db.steps.rows ↔
      x ∈ c.db.steps.rows ∨ x = step := by simp [hsr]
  constructor
  · intro x hx y hy hxy
    rcases (hmem x).1 hx with hx | rfl <;> rcases (hmem y).1 hy with hy | rfl
    · exact hi.single x hx y hy hxy
    · exact absurd (hxy.trans hnew) (hold x hx)
    · exact absurd (hxy.symm.trans hnew) (hold y hy)
    · rfl
  · intro x hx
    rw [Table.get?_insert hj]
    split_ifs with hk
    · rfl
    · rcases (hmem x).1 hx with hx | rfl
      · exact hi.owned x hx
      · exact absurd hnew.symm hk
  · intro x hx j hjm hxj
    have hjget : (app.controller.step c a).db.jobs.get? j.id = some j := Table.get?_of_mem hjm
    rw [Table.get?_insert hj] at hjget
    rcases (hmem x).1 hx with hx | rfl
    · have hne : HasKey.key job ≠ j.id := fun he => hold x hx (hxj.trans he.symm)
      rw [if_neg hne] at hjget
      have hjm' : j ∈ c.db.jobs.rows := Table.mem_of_get? hjget
      exact (hi.phase x hx j hjm' hxj).frame hi hx hjm' hxj rfl rfl rfl
        (Table.get?_of_mem hjm) rfl
    · rw [if_pos (show HasKey.key job = j.id from hnew.symm.trans hxj)] at hjget
      cases hjget
      exact .waiting (Or.inl rfl) rfl rfl

/-- A handler that is about to mark a job as running does so before the job is
    completed or failed. -/
def StartInTime (t : Trans app.controller) : Prop :=
  ∀ i r p old j, t.act = .act i → t.pre.procs[i]? = some (r, p) → MarksRunning old p →
    t.pre.db.jobs.get? old.id = some j → j.status ≠ .completed ∧ j.status ≠ .failed

/-- Nothing is late while every job is open, or no handler is in flight. -/
theorem StartInTime.of_open {t : Trans app.controller}
    (h : (∀ j ∈ t.pre.db.jobs.rows, j.status ≠ .completed ∧ j.status ≠ .failed) ∨ t.pre.Quiet) :
    StartInTime t := by
  rintro i r p old j - hi ⟨now, g, rfl⟩ hj
  rcases h with h | h
  · exact h j (Table.mem_of_get? hj)
  · rcases h _ (List.mem_of_getElem? hi) with ⟨a, ha⟩ | ⟨e, he⟩
    · cases ha
    · cases he

/-- **A `start` in time leaves terminal jobs alone.** -/
theorem StartInTime.keeps (hst : StartInTime (⟨c, a⟩ : Trans app.controller))
    (hrun : app.Run db₀ tr c) (hby : Trans.By (⟨c, a⟩ : Trans app.controller) i r)
    {stepId : String} {body : StepEpochRequest} (hc : r.call = .startStep stepId body)
    {k : String} {j : Job} (hj : c.db.jobs.get? k = some j)
    (hterm : j.status = .completed ∨ j.status = .failed) :
    (app.controller.step c a).db.jobs.get? k = some j := by
  obtain ⟨rfl, hr⟩ := hby
  obtain ⟨⟨r', p⟩, hi, rfl⟩ := Option.map_eq_some_iff.1 hr
  have hevery := Service.Run.every (handle_startMarks app) hrun i r' p hi
  rcases Service.step_act (S := app.controller) c i with hs | ⟨r, f, g, hi', hs⟩
  · rw [hs]
    exact hj
  cases hi.symm.trans hi'
  rw [hs]
  rcases hevery.1 ⟨stepId, body, hc⟩ with hkeep | ⟨old, now, g', hp⟩
  · rw [show (f c.db).jobs = c.db.jobs from hkeep f g rfl c.db]
    exact hj
  · have hid : j.id ≠ old.id := fun hid => by
      have hget : c.db.jobs.get? old.id = some j :=
        hid ▸ Table.get?_of_mem (Table.mem_of_get? hj)
      obtain ⟨h1, h2⟩ := hst i r' _ old j rfl hi ⟨now, g', hp⟩ hget
      exact hterm.elim h1 h2
    obtain ⟨rfl, -⟩ := Prog.act.inj hp
    simp [hj, hid]

/-- The update of a `start` that is not late leads to the phase of its step. -/
theorem Phase.start {x : Step} {j j' : Job} (h : Phase c x j) (hi : RaceInv c)
    (hx : x ∈ c.db.steps.rows) (hj : j ∈ c.db.jobs.rows) (hxj : x.jobId = j.id)
    (hstarted : x.startedAt.isSome)
    (hj' : (app.controller.step c a).db.jobs.get? j.id = some j') (hrun : j'.status = .running)
    (hlate : j.status = .completed ∨ j.status = .failed → j' = j) :
    Phase (app.controller.step c a) x j' := by
  have hjid : j'.id = j.id := Table.key_of_get? hj'
  cases h with
  | waiting _ _ hn => rw [hn] at hstarted; cases hstarted
  | told h1 h2 =>
    rcases h1 with h1 | h1
    · exact .told (Or.inl h1) (by rw [hrun, h1]; rfl)
    · -- the update would take a terminal job back to running
      have hterminal : j.status = .completed ∨ j.status = .failed := by
        rcases h1 with h1 | h1 <;> simp [h2, h1, jobStatusOf]
      rw [hlate hterminal] at hrun
      rcases hterminal with h | h <;> rw [h] at hrun <;> cases hrun
  | owed h1 h2 ho =>
    rcases h1 with h1 | h1
    · exact .told (Or.inl h1) (by rw [hrun, h1]; rfl)
    · rcases ho.step app (hi.pending hx hj hxj h2) a with ⟨j'', hj'', hst'⟩ | ho'
      · cases hj'.symm.trans hj''
        exact .told (Or.inr h1) hst'
      · refine .owed (Or.inr h1) (Or.inr ⟨?_, hrun⟩) (hjid ▸ ho')
        rcases h1 with h1 | h1 <;> simp [h1]

/-- A job update takes its job to the matching phase, unless it is a late one. -/
theorem RaceInv.job (hi : RaceInv c) (hrun : app.Run db₀ tr c)
    (hby : Trans.By (⟨c, a⟩ : Trans app.controller) i r)
    (hst : StartInTime (⟨c, a⟩ : Trans app.controller)) {old new : Job}
    (hw : JobWrite c.db r old new) (hs : (app.controller.step c a).db.steps = c.db.steps)
    (hj : ∀ k, (app.controller.step c a).db.jobs.get? k =
      (c.db.jobs.get? k).map fun j => if j.id = old.id then Job.flush old new j else j) :
    RaceInv (app.controller.step c a) := by
  refine ⟨by rw [hs]; exact hi.single, fun x hx => ?_, fun x hx j' hjm hxj => ?_⟩
  · rw [hj, Option.isSome_map]
    exact hi.owned x (hs ▸ hx)
  rw [hs] at hx
  have hjget : (app.controller.step c a).db.jobs.get? j'.id = some j' := Table.get?_of_mem hjm
  have hmap := hj j'.id
  rw [hjget] at hmap
  obtain ⟨j, hjg, hjj'⟩ := Option.map_eq_some_iff.1 hmap.symm
  have hjid : j.id = j'.id := Table.key_of_get? hjg
  have hjmem : j ∈ c.db.jobs.rows := Table.mem_of_get? hjg
  have hxj' : x.jobId = j.id := hxj.trans hjid.symm
  have hphase := hi.phase x hx j hjmem hxj'
  have hframe : j'.status = j.status → Phase (app.controller.step c a) x j' := fun he =>
    hphase.frame hi hx hjmem hxj' rfl rfl rfl (hjid ▸ hjget) he
  by_cases hk : j.id = old.id
  swap
  · rw [if_neg hk] at hjj'
    exact hframe (by rw [hjj'])
  rw [if_pos hk] at hjj'
  -- the writer's step is the job's only one
  have hthe : ∀ {stepId y}, c.db.steps.get? stepId = some y → y.jobId = old.id → y = x :=
    fun hy hyj =>
      hi.single _ (Table.mem_of_get? hy) x hx (hyj.trans (hk.symm.trans hxj'.symm))
  -- a terminal update: the column is written, or the job said so already
  have hterm : ∀ s, jobStatusOf x.status = s → (x.status = .completed ∨ x.status = .failed) →
      new.status = s → Phase (app.controller.step c a) x j' := by
    intro s hs' hxs hns
    rcases Job.flush_status old new j with he | he
    · exact hframe (by rw [← hjj', he])
    · exact .told (Or.inr hxs) (by rw [← hjj', he, hns, hs'])
  cases hw with
  | @running stepId body y now hc hold hy hyj hys =>
    obtain rfl := hthe hy hyj
    refine hphase.start hi hx hjmem hxj' hys (hjid ▸ hjget) ?_ fun hterminal => ?_
    · rw [← hjj']
      exact Job.flush_status_ne (by rcases hold with h | h <;> simp [h])
    · exact Option.some.inj (hjget.symm.trans (hst.keeps hrun hby hc hjg hterminal))
  | completed hc hy hyj hys =>
    obtain rfl := hthe hy hyj
    exact hterm _ rfl (Or.inl hys) (by rw [hys]; rfl)
  | partly hc hy hyj hys hz hzj hne =>
    obtain rfl := hthe hy hyj
    exact absurd ((congrArg Step.id (hthe (Table.get?_of_mem hz) hzj)).trans
      (Table.key_of_get? hy)) hne
  | failed hc hy hyj hys =>
    obtain rfl := hthe hy hyj
    exact hterm _ rfl (Or.inr hys) (by rw [hys]; rfl)

/-- **One transition keeps the invariant.** -/
theorem RaceInv.step (hi : RaceInv c)
    (hrun : app.Run db₀ (⟨c, a⟩ :: tr) (app.controller.step c a)) (hne : ∀ e, a ≠ .env e)
    (hst : StartInTime (⟨c, a⟩ : Trans app.controller)) :
    RaceInv (app.controller.step c a) := by
  rcases (sound app).cases trivial hrun List.mem_cons_self with he | ⟨i, r, hby, he⟩ | ⟨e, he, -⟩
  · exact hi.same (congrArg Db.steps he) (congrArg Db.jobs he)
  · generalize hd : (⟨c, a⟩ : Trans app.controller).post.db = db' at he
    have hsteps := congrArg Db.steps hd
    have hjobs := congrArg Db.jobs hd
    cases he with
    | read | register => exact hi.same hsteps hjobs
    | steps f hf hw | heartbeat f hf _ _ _ hw => exact hi.write hrun hby f hf hsteps hjobs hw
    | create _ hj hs =>
      exact hi.create (hj.trans (congrArg some hjobs.symm)) (hs.trans (congrArg some hsteps.symm))
    | job hw =>
      refine hi.job (Service.Run.split hrun (List.nil_append _).symm) hby hst hw hsteps fun k => ?_
      rw [show (app.controller.step c a).db.jobs = _ from hjobs, Table.get?_update]
  · exact absurd he (hne e)

end Step

theorem RaceInv.of_empty : RaceInv (⟨Db.empty, []⟩ : Conf Db HttpError Response Request) where
  single _ hx := absurd hx List.not_mem_nil
  owned _ hx := absurd hx List.not_mem_nil
  phase _ hx := absurd hx List.not_mem_nil

/-- The invariant of a run without recovery and late starts. -/
theorem App.Run.raceInv (h : app.Run Db.empty tr c) (hrec : ∀ t ∈ tr, ∀ e, t.act ≠ .env e)
    (hst : ∀ t ∈ tr, StartInTime t) : RaceInv c := by
  induction h with
  | init => exact .of_empty
  | @step tr c h a ih =>
    refine (ih (fun t ht => hrec t (List.mem_cons_of_mem _ ht)) fun t ht =>
      hst t (List.mem_cons_of_mem _ ht)).step (h.step a) (hrec _ List.mem_cons_self)
      (hst _ List.mem_cons_self)

/-- The job row says what its only step says. -/
structure Agree (x : Step) (j : Job) : Prop where
  completed : j.status = .completed ↔ x.status = .completed
  failed : j.status = .failed ↔ x.status = .failed
  running : j.status = .running ↔ x.status = .running
  queued : j.status = .queued ↔ x.status = .queued ∨ x.status = .assigned

/-- Nothing is owed between requests, so the rows agree. -/
theorem RaceInv.agree (hi : RaceInv c) (hq : c.Quiet) {x : Step} (hx : x ∈ c.db.steps.rows) :
    ∃ j, c.db.jobs.get? x.jobId = some j ∧ Agree x j := by
  obtain ⟨j, hj⟩ := Option.isSome_iff_exists.1 (hi.owned x hx)
  refine ⟨j, hj, ?_⟩
  cases hi.phase x hx j (Table.mem_of_get? hj) (Table.key_of_get? hj).symm with
  | waiting h1 h2 => rcases h1 with h1 | h1 <;> constructor <;> simp [h1, h2]
  | told h1 h2 => rcases h1 with h1 | h1 | h1 <;> constructor <;> simp [h1, h2, jobStatusOf]
  | owed h1 h2 ho => exact absurd ho (not_owed hq)

/-- **Job and step agree under concurrency.**  In a run without recovery in which
    no `start` writes its job after the job became terminal, every step agrees
    with its job whenever no handler is in flight. -/
theorem job_step_agree (h : app.Run Db.empty tr c) (hrec : ∀ t ∈ tr, ∀ e, t.act ≠ .env e)
    (hst : ∀ t ∈ tr, StartInTime t) (hq : c.Quiet) :
    ∀ x ∈ c.db.steps.rows, ∃ j, c.db.jobs.get? x.jobId = some j ∧ Agree x j :=
  fun _ hx => (h.raceInv hrec hst).agree hq hx

/-- A `start` of `step_a` has committed the step, and the `complete` that its Worker sends
    commits it as well; then the `start` writes the job, and then the `complete`. -/
def sampleOverlap : List (Act Request String) :=
  List.replicate 5 (.act 4) ++ List.replicate 3 (.act 3) ++ List.replicate 2 (.act 4) ++
    .arrive (sampleRequest 5 (.completeStep "step_a" { assignmentEpoch := 1 })) ::
      (List.replicate 4 (.act 3) ++ .arrive (sampleRequest 4 (.startStep "step_a" ⟨1⟩)) ::
        oneByOne 0 sampleAssigned)

/-- The requests overlap, and the step and its job agree in the end. -/
theorem job_step_agree_sample :
    let r := sampleRun sampleOverlap
    (∃ t ∈ r.1, t.pre.db.steps.rows.map Step.status = [.completed] ∧
      t.pre.db.jobs.rows.map Job.status = [.queued]) ∧
    r.2.db.steps.rows.map Step.status = [.completed] ∧
      ∀ x ∈ r.2.db.steps.rows, ∃ j, r.2.db.jobs.get? x.jobId = some j ∧ Agree x j := by
  have hopen : ∀ t ∈ (sampleRun sampleOverlap).1,
      (∀ j ∈ t.pre.db.jobs.rows, j.status ≠ .completed ∧ j.status ≠ .failed) ∨ t.pre.Quiet := by
    decide +kernel
  exact ⟨by decide +kernel, by decide +kernel,
    job_step_agree (sampleRun_run sampleOverlap) (by decide +kernel)
      (fun t ht => StartInTime.of_open (hopen t ht)) (by decide +kernel)⟩

/-- A `start` of `step_a` reads the queued job; the `fail` its Worker sends after
    a timeout is handled; then the `start` writes the job. -/
def sampleLateStart : List (Act Request String) :=
  List.replicate 3 (.act 3) ++
    oneByOne 4 [sampleRequest 5
      (.failStep "step_a" { assignmentEpoch := 1, errorMessage := "timed out" })] ++
    (List.replicate 4 (.act 3) ++ .arrive (sampleRequest 4 (.startStep "step_a" ⟨1⟩)) ::
      oneByOne 0 sampleAssigned)

/-- A late `start` puts the job of a failed step back to running, for ever. -/
theorem job_step_agree_fails :
    let r := sampleRun sampleLateStart
    (∀ t ∈ r.1, ∀ e, t.act ≠ .env e) ∧ r.2.Quiet ∧
      r.2.db.steps.rows.map Step.status = [.failed] ∧ r.2.db.jobs.rows.map Job.status = [.running] ∧
      ¬ ∀ x ∈ r.2.db.steps.rows, ∃ j, r.2.db.jobs.get? x.jobId = some j ∧ Agree x j := by
  have hrows : (sampleRun sampleLateStart).2.db.steps.rows.any (fun x => x.status = .failed ∧
      ((sampleRun sampleLateStart).2.db.jobs.get? x.jobId).all (·.status = .running)) := by
    decide +kernel
  refine ⟨by decide +kernel, by decide +kernel, by decide +kernel, by decide +kernel, fun h => ?_⟩
  simp only [List.any_eq_true, decide_eq_true_eq] at hrows
  obtain ⟨x, hx, hs, hj⟩ := hrows
  obtain ⟨j, hjob, hag⟩ := h x hx
  rw [hjob, Option.all_some, decide_eq_true_eq] at hj
  exact absurd (hag.failed.2 hs) (by simp [hj])

end MediaOrchard
