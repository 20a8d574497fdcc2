/-
  Crashes inside a `complete` or `fail` request.

  * `restart_agrees`: after the request is sent again, job and step agree unless
    the process stopped between the commit of the step and the commit of the job;
    then the job is left behind (`restart_agrees_fails`).
-/
import MediaOrchard.Proof.JobRaces

namespace MediaOrchard

open Keyed Interleave Prog

variable {k : String} {st : StepStatus} {r : Request} {app : App}
  {tr : List (Trans app.controller)} {c : Conf Db HttpError Response Request}

/-! ## Requests sent again -/

/-- The Worker sends `r` again: the clock and the client may differ. -/
structure Resent (r r' : Request) : Prop where
  call : r'.call = r.call
  headers : r'.headers = r.headers

theorem Resent.admitted {r' : Request} (h : Resent r r') {x : Step} :
    Admitted app r' x ↔ Admitted app r x := by
  obtain ⟨hc, hh⟩ := h
  constructor <;> intro ⟨h1, h2, h3, h4⟩ <;> constructor <;> simp_all

/-- The request completes or fails step `k`. -/
def Finishes (r : Request) (k : String) (st : StepStatus) : Prop :=
  r.call.target? = some (k, st) ∧ (st = .completed ∨ st = .failed)

theorem Finishes.not_start (h : Finishes r k st) (k' : String) (body : StepEpochRequest) :
    r.call ≠ .startStep k' body := by
  intro hc
  obtain ⟨h1, h2⟩ := h
  rw [hc] at h1
  cases h1
  rcases h2 with h2 | h2 <;> cases h2

theorem Finishes.after_status {x : Step} (h : Finishes r x.id st) : (x.after r).status = st := by
  obtain ⟨h1, h2⟩ := h
  unfold Step.after
  cases hc : r.call <;> rw [hc] at h1 <;> first | (cases h1; rfl) | cases h1

theorem Finishes.fromStatuses (h : Finishes r k st) :
    r.call.fromStatuses ≠ [] ∧ .completed ∉ r.call.fromStatuses ∧
      .failed ∉ r.call.fromStatuses := by
  obtain ⟨h1, h2⟩ := h
  cases hc : r.call <;> rw [hc] at h1 <;> first | cases h1; simp [Call.fromStatuses] | cases h1

/-- An accepted `complete` or `fail` that runs to its end leaves job and step in
    agreement. -/
theorem after_agrees {db : Db} {x : Step} (hx : db.steps.get? x.id = some x)
    (hs : ∀ y ∈ db.steps.rows, y.jobId = x.jobId → y = x)
    (hj : (db.jobs.get? x.jobId).isSome) (hr : Finishes r x.id st) :
    ∃ j, (db.after r x).jobs.get? x.jobId = some j ∧ j.status = jobStatusOf st := by
  obtain ⟨j, hj⟩ := Option.isSome_iff_exists.1 hj
  set steps := (db.setStep (x.after r)).steps.select fun s => s.jobId = x.jobId with hsteps
  have hget : (db.after r x).jobs.get? x.jobId = some (j.after r steps) := by
    rw [Db.after, mapJob_get?, setStep_jobs, hj, Option.map_some, if_pos rfl]
  refine ⟨_, hget, ?_⟩
  have hst := hr.after_status
  obtain ⟨h1, h2⟩ := hr
  cases hc : r.call with
  | completeStep k body =>
    rw [hc] at h1
    cases h1
    -- the job's only step is the one just completed
    have hmem : ∀ y, y ∈ steps ↔ y = x.after r := by
      intro y
      simp only [hsteps, Table.mem_select, mem_setStep hx (Step.after_id x r), decide_eq_true_eq]
      constructor
      · rintro ⟨rfl | ⟨hy, hne⟩, hyj⟩
        · rfl
        · exact absurd (congrArg Step.id (hs y hy hyj)) hne
      · rintro rfl
        exact ⟨Or.inl rfl, Step.after_jobId x r⟩
    have hall : ∀ y ∈ steps, y.status = .completed := fun y hy => by rw [(hmem y).1 hy, hst]
    simp only [Job.after, hc,
      Job.afterStepCompletion_all (List.ne_nil_of_mem ((hmem _).2 rfl)) hall, jobStatusOf]
  | failStep k body =>
    rw [hc] at h1
    cases h1
    simp only [Job.after, hc, jobStatusOf]
  | startStep k body =>
    rw [hc] at h1
    cases h1
    rcases h2 with h2 | h2 <;> cases h2
  | _ => rw [hc] at h1; cases h1

/-! ## Stopping and restarting -/

/-- The step is finished and its job is not. -/
def Stranded (x : Step) (j : Job) : Prop :=
  (x.status = .completed ∨ x.status = .failed) ∧ (j.status = .queued ∨ j.status = .running)

/-- A job is never ahead of its step, and behind a finished one only while a
    handler in flight owes it the update. -/
theorem RaceInv.finished (hi : RaceInv c) {x : Step} (hx : x ∈ c.db.steps.rows) {j : Job}
    (hj : c.db.jobs.get? x.jobId = some j) :
    (j.status = .completed → x.status = .completed) ∧ (j.status = .failed → x.status = .failed) ∧
      ((j.status = .completed ↔ x.status = .completed) ∧
        (j.status = .failed ↔ x.status = .failed) ↔ ¬ Stranded x j) ∧
      (Stranded x j → Owed c x.id j.id x.status) := by
  unfold Stranded
  cases hi.phase x hx j (Table.mem_of_get? hj) (Table.key_of_get? hj).symm with
  | waiting h1 h2 => rcases h1 with h1 | h1 <;> simp [h1, h2]
  | told h1 h2 => rcases h1 with h1 | h1 | h1 <;> simp [h1, h2, jobStatusOf]
  | owed h1 h2 ho =>
    rcases h1 with h1 | h1 | h1 <;> rw [h1] at ho <;> rcases h2 with h2 | ⟨-, h2⟩ <;>
      simp [h1, h2, ho]

/-- A row that the request has already changed is not admitted again. -/
theorem not_admitted_after {db : Db} {x : Step} {r' : Request} (hr : Finishes r x.id st)
    (hre : Resent r r') (hx : db.steps.get? x.id = some (x.after r)) :
    ∀ y, db.steps.get? y.id = some y → ¬ Admitted app r' y := by
  intro y hy ha
  have hid : y.id = x.id := Call.target?_fence? hr.1 (hre.call ▸ ha.fence)
  rw [hid, hx] at hy
  cases hy
  have hs := ha.status
  obtain ⟨-, hc, hf⟩ := hr.fromStatuses
  rw [hre.call, hr.after_status] at hs
  rcases hr.2 with h | h <;> rw [h] at hs
  exacts [hc hs, hf hs]

/-- **A crash inside a `complete` or `fail` request.**  From any state of a run as
    in `job_step_agree`, let the process stop after any number of actions of the
    request and let the Worker send it again: the terminal states of job and step
    agree exactly if the step was not already finished with its job unfinished,
    which takes a handler in flight, and if the process did not stop between the
    commit of the step and the commit of the job of an accepted request. -/
theorem restart_agrees (h : app.Run Db.empty tr c) (hrec : ∀ t ∈ tr, ∀ e, t.act ≠ .env e)
    (hst : ∀ t ∈ tr, StartInTime t) {x : Step} (hx : x ∈ c.db.steps.rows) {r' : Request}
    (hr : Finishes r x.id st) (hre : Resent r r') (n : ℕ) :
    ∃ j, c.db.jobs.get? x.jobId = some j ∧ (c.Quiet → ¬ Stranded x j) ∧ ∃ x' j',
      ((app.handle r').exec ((app.handle r).stop n c.db)).2.steps.get? x.id = some x' ∧
      ((app.handle r').exec ((app.handle r).stop n c.db)).2.jobs.get? x.jobId = some j' ∧
      ((j'.status = .completed ↔ x'.status = .completed) ∧
          (j'.status = .failed ↔ x'.status = .failed) ↔
        ¬ Stranded x j ∧ ¬ (Admitted app r x ∧ 2 ≤ n ∧ n < r.call.jobCommit)) := by
  have hi := h.raceInv hrec hst
  have hget : c.db.steps.get? x.id = some x := Table.get?_of_mem hx
  have hjob := hi.owned x hx
  obtain ⟨j, hj⟩ := Option.isSome_iff_exists.1 hjob
  obtain ⟨hjc, hjf, hagree, howed⟩ := hi.finished hx hj
  refine ⟨j, hj, fun hq hs => not_owed hq (howed hs), ?_⟩
  have hset : (c.db.setStep (x.after r)).steps.get? x.id = some (x.after r) :=
    setStep_get?_self hget (Step.after_id x r)
  -- once the row is written, the request sent again is rejected
  have hresent : ∀ {db : Db}, db.steps.get? x.id = some (x.after r) →
      ((app.handle r').exec db).2 = db := fun hdb => by
    obtain ⟨⟨e, he⟩, -⟩ : Rejects (app.handle r') _ :=
      exec_rejected (by rw [hre.call]; exact hr.fromStatuses.1) (not_admitted_after hr hre hdb)
    rw [he]
  by_cases ha : Admitted app r x
  · have hopen : x.status ≠ .completed ∧ x.status ≠ .failed := by
      have hs := ha.status
      obtain ⟨-, hc, hf⟩ := hr.fromStatuses
      exact ⟨fun h => hc (h ▸ hs), fun h => hf (h ▸ hs)⟩
    have hnot : ¬ Stranded x j := fun hs => hs.1.elim hopen.1 hopen.2
    rw [stop_admitted hget ha hjob hr.not_start n]
    by_cases h1 : n < 2
    · -- stopped before the step was written: the request starts afresh
      have hr' : Finishes r' x.id st := ⟨by rw [hre.call]; exact hr.1, hr.2⟩
      obtain ⟨j', hj', hs⟩ := after_agrees hget (fun y hy hyj => hi.single y hy x hx hyj) hjob hr'
      rw [if_pos h1, exec_admitted hget (hre.admitted.2 ha)]
      refine ⟨_, j', setStep_get?_self hget (Step.after_id x r'), hj', ?_⟩
      rw [hs, hr'.after_status]
      rcases hr.2 with rfl | rfl <;> simp [jobStatusOf, h1, hnot]
    · rw [if_neg h1]
      by_cases h2 : n < r.call.jobCommit
      · -- the step is terminal, the job is not, and nothing repairs it
        rw [if_pos h2, hresent hset]
        refine ⟨x.after r, j, hset, hj, ?_⟩
        rw [hr.after_status]
        have hjc' := mt hjc hopen.1
        have hjf' := mt hjf hopen.2
        rcases hr.2 with rfl | rfl <;> simp [ha, h1, h2, hjc', hjf', Nat.le_of_not_lt]
      · obtain ⟨j', hj', hs⟩ :=
          after_agrees hget (fun y hy hyj => hi.single y hy x hx hyj) hjob hr
        have hset' : (c.db.after r x).steps.get? x.id = some (x.after r) := hset
        rw [if_neg h2, hresent hset']
        refine ⟨x.after r, j', hset, hj', ?_⟩
        rw [hs, hr.after_status]
        rcases hr.2 with rfl | rfl <;> simp [jobStatusOf, h2, hnot]
  · -- a rejected request changes nothing, now or later
    have hrej : ∀ q, Resent r q → Rejects (app.handle q) c.db := fun q hq => by
      refine exec_rejected (by rw [hq.call]; exact hr.fromStatuses.1) fun y hy hay => ha ?_
      have hid : y.id = x.id := Call.target?_fence? hr.1 (hq.call ▸ hay.fence)
      rw [hid, hget] at hy
      cases hy
      exact hq.admitted.1 hay
    rw [(hrej r ⟨rfl, rfl⟩).2]
    obtain ⟨⟨e, he⟩, -⟩ := hrej r' hre
    rw [he]
    exact ⟨x, j, hget, hj, by rw [hagree]; simp [ha]⟩

/-- `mac` has claimed and started `step_a`. -/
def sampleStarted : List (Act Request String) :=
  oneByOne 0 (sampleAssigned ++ sampleCompleted.take 2)

/-- The state in which `mac` runs `step_a`. -/
def sampleRunning : Conf Db HttpError Response Request := (sampleRun sampleStarted).2

/-- The `complete` of `step_a`, sent at second `now`. -/
def sampleComplete (now : ℤ) : Request :=
  sampleRequest now (.completeStep "step_a" { assignmentEpoch := 1 })

/-- The database after a process that stops after `n` actions of the request, and the
    request sent again. -/
def sampleResent (n : ℕ) : Db :=
  ((sampleApp.handle (sampleComplete 9)).exec
    ((sampleApp.handle (sampleComplete 5)).stop n sampleRunning.db)).2

theorem sampleComplete_admitted {x : Step} (hx : x ∈ sampleRunning.db.steps.rows) :
    Admitted sampleApp (sampleComplete 5) x where
  auth := by
    have hok : ((requireWorkerAuth sampleApp (sampleComplete 5).headers).exec
        Db.empty).1.toOption.isSome := by decide +kernel
    rcases requireWorkerAuth_cases sampleApp (sampleComplete 5).headers with h | ⟨e, h⟩
    · exact h
    · rw [h] at hok
      cases hok
  owner := by
    have hall : ∀ y ∈ sampleRunning.db.steps.rows, y.assignedNodeId = some "mac" := by
      decide +kernel
    exact ⟨"mac", rfl, hall x hx⟩
  fence := by
    have hall : ∀ y ∈ sampleRunning.db.steps.rows, y.id = "step_a" ∧ y.assignmentEpoch = 1 := by
      decide +kernel
    rw [(hall x hx).1, (hall x hx).2]
    rfl
  status := by
    have hall : ∀ y ∈ sampleRunning.db.steps.rows, y.status = .running := by decide +kernel
    rw [hall x hx]
    decide

/-- Wherever the process stops, the step and its job agree, except between the commit of
    the one and the commit of the other. -/
theorem restart_agrees_sample :
    sampleRunning.db.steps.rows.map Step.status = [.running] ∧
      ∀ x ∈ sampleRunning.db.steps.rows, ∀ n, ∃ x' j',
        (sampleResent n).steps.get? x.id = some x' ∧
        (sampleResent n).jobs.get? x.jobId = some j' ∧
        ((j'.status = .completed ↔ x'.status = .completed) ∧
          (j'.status = .failed ↔ x'.status = .failed) ↔ ¬ (2 ≤ n ∧ n < 6)) := by
  refine ⟨by decide +kernel, fun x hx n => ?_⟩
  have hrun : sampleApp.Run Db.empty (sampleRun sampleStarted).1 sampleRunning := sampleRun_run _
  have hadmitted := sampleComplete_admitted hx
  have hr : Finishes (sampleComplete 5) x.id .completed := by
    have hid : "step_a" = x.id := congrArg Prod.fst (Option.some.inj hadmitted.fence)
    exact ⟨hid ▸ rfl, Or.inl rfl⟩
  have hre : Resent (sampleComplete 5) (sampleComplete 9) := ⟨rfl, rfl⟩
  have hrec : ∀ t ∈ (sampleRun sampleStarted).1, ∀ e, t.act ≠ .env e := by decide +kernel
  have hopen : ∀ t ∈ (sampleRun sampleStarted).1,
      ∀ j ∈ t.pre.db.jobs.rows, j.status ≠ .completed ∧ j.status ≠ .failed := by decide +kernel
  have hst : ∀ t ∈ (sampleRun sampleStarted).1, StartInTime t := fun t ht =>
    StartInTime.of_open (Or.inl (hopen t ht))
  obtain ⟨j, -, hstranded, x', j', hx', hj', hagree⟩ := restart_agrees hrun hrec hst hx hr hre n
  refine ⟨x', j', hx', hj', hagree.trans ?_⟩
  have hquiet : sampleRunning.Quiet := by decide +kernel
  have hcommit : (sampleComplete 5).call.jobCommit = 6 := rfl
  simp [hstranded hquiet, hadmitted, hcommit]

/-- A process that stops right after the commit of the step strands the job: the
    request sent again is rejected, and the job stays running. -/
theorem restart_agrees_fails :
    (∃ tr, sampleApp.Run Db.empty tr sampleRunning) ∧
      let crashed := (sampleApp.handle (sampleComplete 5)).stop 2 sampleRunning.db
      let resent := ((sampleApp.handle (sampleComplete 9)).exec crashed).2
      sampleStatus crashed (sampleComplete 9) = 409 ∧
        resent.steps.rows.map Step.status = [.completed] ∧
        resent.jobs.rows.map Job.status = [.running] :=
  ⟨⟨_, sampleRun_run _⟩, by decide +kernel⟩

end MediaOrchard
