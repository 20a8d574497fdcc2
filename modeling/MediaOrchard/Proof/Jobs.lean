/-
  Jobs over whole runs.

  * `terminal_jobs_justified`: under any interleaving, a completed job has only
    completed steps and a failed job has a failed step;
  * `job_aggregate`: requests handled one after another keep the status of a job
    the aggregate of its steps, unless a step is completed after another failed
    (`job_aggregate_fails`).
-/
import MediaOrchard.Proof.Exec
import MediaOrchard.Proof.Steps

namespace MediaOrchard

open Keyed Interleave Prog

variable {app : App} {t : Trans app.controller} {db₀ : Db} {tr : List (Trans app.controller)}
  {c : Conf Db HttpError Response Request}

/-! ## Terminal jobs -/

/-- Every step of the job is completed. -/
def AllCompleted (jobId : String) (db : Db) : Prop :=
  ∀ x ∈ db.steps.rows, x.jobId = jobId → x.status = .completed

/-- Some step of the job is failed. -/
def SomeFailed (jobId : String) (db : Db) : Prop :=
  ∃ x ∈ db.steps.rows, x.jobId = jobId ∧ x.status = .failed

/-- A terminal status of job `jobId` is what its steps say. -/
structure Justified (jobId : String) (status : JobStatus) (db : Db) : Prop where
  completed : status = .completed → AllCompleted jobId db
  failed : status = .failed → SomeFailed jobId db

theorem stable_someFailed (jobId : String) : Stable Rely (SomeFailed jobId) := by
  rintro db db' ⟨x, hx, hj, hs⟩ hR
  obtain ⟨x', hx', hk⟩ := hR.row x.id x (Table.get?_of_mem hx)
  obtain rfl := hk.final (Or.inr hs)
  exact ⟨x', Table.mem_of_get? hx', hj, hs⟩

/-- The steps of an existing job keep justifying its status. -/
theorem Justified.rely {jobId : String} {status : JobStatus} {db db' : Db}
    (h : Justified jobId status db) (hj : (db.jobs.get? jobId).isSome) (hR : Rely db db') :
    Justified jobId status db' :=
  ⟨fun hs => (stable_allCompleted jobId db db' ⟨hj, h.completed hs⟩ hR).2,
    fun hs => stable_someFailed jobId db db' (h.failed hs) hR⟩

/-- The status a request writes is justified by the steps at that moment. -/
theorem JobWrite.justified {db : Db} {r : Request} {old new : Job} (h : JobWrite db r old new) :
    Justified old.id new.status db := by
  cases h with
  | running | partly => exact ⟨nofun, nofun⟩
  | completed _ _ _ _ hall => exact ⟨fun _ => hall, nofun⟩
  | failed _ hx hj hs => exact ⟨nofun, fun _ => ⟨_, Table.mem_of_get? hx, hj, hs⟩⟩

/-- **Terminal job states are justified**: in every reachable state a completed
    job has only completed steps, and a failed job has a failed step. -/
theorem terminal_jobs_justified (h₀ : db₀.Initial) (h : app.Run db₀ tr c) :
    ∀ j ∈ c.db.jobs.rows,
      (j.status = .completed → ∀ x ∈ c.db.steps.rows, x.jobId = j.id → x.status = .completed) ∧
      (j.status = .failed → ∃ x ∈ c.db.steps.rows, x.jobId = j.id ∧ x.status = .failed) := by
  have key : ∀ tr' c', app.Run db₀ tr' c' → ∀ k j, c'.db.jobs.get? k = some j →
      Justified k j.status c'.db := by
    intro tr' c' h'
    induction h' with
    | init =>
      intro k j hj
      have := (h₀.jobs j (Table.mem_of_get? hj)).status
      exact ⟨fun hs => by simp [this] at hs, fun hs => by simp [this] at hs⟩
    | @step tr c h' a ih =>
      intro k j' hj'
      have hrun : app.Run db₀ _ _ := h'.step a
      have hR : Rely c.db (app.controller.step c a).db :=
        hrun.rely (t := ⟨c, a⟩) List.mem_cons_self
      cases hrun.jobStep (t := ⟨c, a⟩) List.mem_cons_self k with
      | same hs =>
        have hj := hs.symm.trans hj'
        exact (ih k j' hj).rely (by rw [show c.db.jobs.get? k = _ from hj]; rfl) hR
      | @write i r old new cur _ hw hk hj hj'' =>
        cases hj'.symm.trans hj''
        have hsome : (c.db.jobs.get? k).isSome := by rw [show c.db.jobs.get? k = _ from hj]; rfl
        rcases Job.flush_status old new cur with hs | hs
        · rw [hs]; exact (ih k cur hj).rely hsome hR
        · rw [hs]; subst hk; exact hw.justified.rely hsome hR
      | create _ _ _ hj'' =>
        cases hj'.symm.trans hj''
        exact ⟨nofun, nofun⟩
  intro j hj
  have := key tr c h j.id j (Table.get?_of_mem hj)
  exact ⟨this.completed, this.failed⟩

/-- The job of a run that completes `step_a`. -/
theorem terminal_jobs_justified_sample :
    let c := (sampleRun (oneByOne 0 (sampleAssigned ++ sampleCompleted))).2
    c.db.jobs.rows.map Job.status = [.completed] ∧ ∀ j ∈ c.db.jobs.rows,
      (j.status = .completed → ∀ x ∈ c.db.steps.rows, x.jobId = j.id → x.status = .completed) ∧
      (j.status = .failed → ∃ x ∈ c.db.steps.rows, x.jobId = j.id ∧ x.status = .failed) :=
  ⟨by decide +kernel, terminal_jobs_justified Db.empty_initial (sampleRun_run _)⟩

/-! ## The status of a job as an aggregate -/

/-- The status of a job with these steps. -/
def aggregate (steps : List Step) : JobStatus :=
  if ∃ x ∈ steps, x.status = .failed then .failed
  else if ∀ x ∈ steps, x.status = .completed then .completed
  else if ∃ x ∈ steps, x.startedAt.isSome then .running
  else .queued

/-- The steps of a job. -/
def Db.stepsOf (db : Db) (jobId : String) : List Step := db.steps.select fun x => x.jobId = jobId

theorem mem_stepsOf {db : Db} {k : String} {x : Step} :
    x ∈ db.stepsOf k ↔ x ∈ db.steps.rows ∧ x.jobId = k := by
  simp [Db.stepsOf, Table.mem_select]

/-- The job row says what its steps say. -/
structure Aggregated (db : Db) (j : Job) : Prop where
  status : j.status = aggregate (db.stepsOf j.id)
  progress : j.status = .completed → j.progress = 100
  completedAt : j.completedAt.isSome ↔ j.status = .completed ∨ j.status = .failed

/-- A change of a step row that an aggregate does not see. -/
structure SameStage (x x' : Step) : Prop where
  job : x'.jobId = x.jobId
  failed : x'.status = .failed ↔ x.status = .failed
  completed : x'.status = .completed ↔ x.status = .completed
  started : x'.startedAt = x.startedAt

theorem SameStage.refl (x : Step) : SameStage x x := ⟨rfl, .rfl, .rfl, rfl⟩

theorem aggregate_map {steps : List Step} {f : Step → Step}
    (h : ∀ x ∈ steps, SameStage x (f x)) : aggregate (steps.map f) = aggregate steps := by
  have h1 : (∃ x ∈ steps.map f, x.status = .failed) ↔ ∃ x ∈ steps, x.status = .failed := by
    simp only [List.mem_map, exists_exists_and_eq_and]
    exact exists_congr fun x => and_congr_right fun hx => (h x hx).failed
  have h2 : (∀ x ∈ steps.map f, x.status = .completed) ↔ ∀ x ∈ steps, x.status = .completed := by
    simp only [List.mem_map, forall_exists_index, and_imp, forall_apply_eq_imp_iff₂]
    exact forall₂_congr fun x hx => (h x hx).completed
  have h3 : (∃ x ∈ steps.map f, x.startedAt.isSome) ↔ ∃ x ∈ steps, x.startedAt.isSome := by
    simp only [List.mem_map, exists_exists_and_eq_and]
    exact exists_congr fun x => and_congr_right fun hx => by rw [(h x hx).started]
  simp only [aggregate, h1, h2, h3]

theorem stepsOf_update {db db' : Db} {f : Step → Step} {hf}
    (hs : db'.steps = db.steps.update f hf) (h : ∀ x ∈ db.steps.rows, SameStage x (f x))
    (k : String) : db'.stepsOf k = (db.stepsOf k).map f := by
  simp only [Db.stepsOf, hs, Table.select, Table.rows_update, List.filter_map]
  congr 1
  exact List.filter_congr fun x hx => by simp [(h x hx).job]

/-- The steps of a job are not those of another one. -/
theorem stepsOf_insert {db : Db} (db' : Db) {x : Step} {k : String}
    (hs : db.steps.insert? x = some db'.steps) (hk : x.jobId ≠ k) :
    db'.stepsOf k = db.stepsOf k := by
  simp [Db.stepsOf, Table.select, (Table.insert?_eq_some hs).2, List.filter_append, hk]

/-- A job is queued while nothing has happened to its steps. -/
theorem Aggregated.of_initial {db : Db} {j : Job} (hj : j.Initial)
    (hne : db.stepsOf j.id ≠ []) (h : ∀ x ∈ db.stepsOf j.id, x.Initial) : Aggregated db j := by
  obtain ⟨y, hy⟩ := List.exists_mem_of_ne_nil _ hne
  have hst : ∀ x ∈ db.stepsOf j.id, x.status ≠ .failed ∧ x.status ≠ .completed := fun x hx => by
    rcases (h x hx).status with hs | hs <;> simp [hs]
  refine ⟨?_, fun hs => by simp [hj.status] at hs, by simp [hj.status, hj.completedAt]⟩
  unfold aggregate
  rw [hj.status, if_neg fun ⟨x, hx, hs⟩ => (hst x hx).1 hs, if_neg fun h => (hst y hy).2 (h y hy),
    if_neg fun ⟨x, hx, hs⟩ => by simp [(h x hx).startedAt] at hs]

/-- What requests handled one after another keep. -/
structure AggInv (db : Db) : Prop where
  jobs : ∀ j ∈ db.jobs.rows, db.stepsOf j.id ≠ [] → Aggregated db j
  owned : ∀ x ∈ db.steps.rows, (db.jobs.get? x.jobId).isSome

theorem Db.Initial.aggInv {db : Db} (h : db.Initial) : AggInv db where
  jobs j hj hne := .of_initial (h.jobs j hj) hne fun x hx => h.steps x (mem_stepsOf.1 hx).1
  owned := h.owned

/-- A write of a request that is not `start`, `complete` or `fail` does not
    change what an aggregate sees. -/
theorem StepWrite.sameStage {db : Db} {r : Request} {x x' : Step} (h : StepWrite db r x x')
    (hc : r.call.fromStatuses = []) : SameStage x x' := by
  cases h with
  | assign _ hs => exact ⟨rfl, by simp [hs, Step.assigned], by simp [hs, Step.assigned], rfl⟩
  | claimNext | claim | progress => exact ⟨rfl, .rfl, .rfl, rfl⟩
  | start h | complete h | fail h => rw [h] at hc; cases hc

theorem JobWrite.fromStatuses {db : Db} {r : Request} {old new : Job} (h : JobWrite db r old new) :
    r.call.fromStatuses ≠ [] := by
  cases h with
  | running h | completed h | partly h | failed h => rw [h]; exact List.cons_ne_nil _ _

theorem AggInv.update {db db' : Db} {f : Step → Step} (h : AggInv db) (hf)
    (hs : db'.steps = db.steps.update f hf) (hj : db'.jobs = db.jobs)
    (hst : ∀ x ∈ db.steps.rows, SameStage x (f x)) : AggInv db' := by
  constructor
  · intro j hjm hne
    have hsel := stepsOf_update hs hst j.id
    have hne' : db.stepsOf j.id ≠ [] := fun h0 => hne (by rw [hsel, h0]; rfl)
    have ha := h.jobs j (hj ▸ hjm) hne'
    refine ⟨ha.status.trans ?_, ha.progress, ha.completedAt⟩
    rw [hsel, aggregate_map fun x hx => hst x (mem_stepsOf.1 hx).1]
  · intro x hx
    rw [hs] at hx
    obtain ⟨y, hy, rfl⟩ := Table.mem_update.1 hx
    rw [(hst y hy).job, hj]
    exact h.owned y hy

theorem AggInv.effect {r : Request} {db db' : Db} (hc : r.call.fromStatuses = [])
    (h : AggInv db) (he : Effect app r db db') : AggInv db' := by
  cases he with
  | read => exact h
  | register nodes =>
    refine ⟨fun j hj hne => ?_, h.owned⟩
    have ha := h.jobs j hj hne
    exact ⟨ha.status, ha.progress, ha.completedAt⟩
  | job hw => exact absurd hc hw.fromStatuses
  | steps f hf hw | heartbeat f hf g hg _ hw =>
    refine h.update hf rfl rfl fun x hx => ?_
    rcases hw x hx with he | hw
    · rw [he]; exact .refl x
    · exact hw.sameStage hc
  | @create body inputFile outputDir jobs plans steps _ hj hs =>
    obtain ⟨hjn, hjr⟩ := Table.insert?_eq_some hj
    obtain ⟨-, hsr⟩ := Table.insert?_eq_some hs
    constructor
    · intro j hjm hne
      rw [hjr] at hjm
      rcases List.mem_append.1 hjm with hjm | hjm
      · have hk : (newRows app r.ambient body inputFile outputDir).1.id ≠ j.id := fun hk =>
          Table.get?_eq_none.1 hjn j hjm hk.symm
        have hsel := stepsOf_insert ⟨db.nodes, jobs, plans, steps⟩ hs hk
        rw [hsel] at hne
        have ha := h.jobs j hjm hne
        exact ⟨ha.status.trans (congrArg aggregate hsel).symm, ha.progress, ha.completedAt⟩
      · obtain rfl := List.mem_singleton.1 hjm
        refine .of_initial (newRows_job_initial ..) hne fun x hx => ?_
        obtain ⟨hx, hxj⟩ := mem_stepsOf.1 hx
        rw [hsr] at hx
        rcases List.mem_append.1 hx with hx | hx
        · have := h.owned x hx
          rw [hxj] at this
          exact absurd (this.symm.trans (congrArg Option.isSome hjn)) (by decide)
        · obtain rfl := List.mem_singleton.1 hx
          exact newRows_step_initial ..
    · intro x hx
      rw [Table.get?_insert hj]
      split_ifs with hk
      · rfl
      · rw [hsr] at hx
        rcases List.mem_append.1 hx with hx | hx
        · exact h.owned x hx
        · obtain rfl := List.mem_singleton.1 hx
          exact absurd rfl hk

/-! ## Accepted requests -/

/-- An aggregate depends on which steps there are, not on their order. -/
theorem aggregate_congr {l l' : List Step} (h : ∀ x, x ∈ l ↔ x ∈ l') :
    aggregate l = aggregate l' := by
  simp only [aggregate, h]

theorem aggregate_failed {l : List Step} {x : Step} (hx : x ∈ l) (hs : x.status = .failed) :
    aggregate l = .failed := if_pos ⟨x, hx, hs⟩

theorem aggregate_running {l : List Step} {x y : Step} (hf : ∀ z ∈ l, z.status ≠ .failed)
    (hx : x ∈ l) (hc : x.status ≠ .completed) (hy : y ∈ l) (hs : y.startedAt.isSome) :
    aggregate l = .running := by
  unfold aggregate
  rw [if_neg fun ⟨z, hz, h⟩ => hf z hz h, if_neg fun h => hc (h x hx), if_pos ⟨y, hy, hs⟩]

theorem aggregate_completed {l : List Step} (h : ∀ x ∈ l, x.status = .completed) :
    aggregate l = .completed := by
  unfold aggregate
  have hf : ¬ ∃ x ∈ l, x.status = .failed := by
    rintro ⟨x, hx, hs⟩
    rw [h x hx] at hs; cases hs
  rw [if_neg hf, if_pos h]

theorem all_of_aggregate {l : List Step} (h : aggregate l = .completed) :
    ∀ x ∈ l, x.status = .completed := by
  unfold aggregate at h
  split_ifs at h with h1 h2
  exact h2

theorem exists_of_aggregate {l : List Step} (h : aggregate l = .failed) :
    ∃ x ∈ l, x.status = .failed := by
  unfold aggregate at h
  split_ifs at h with h1
  exact h1

theorem aggregate_open {l : List Step} {x : Step} (hf : ∀ z ∈ l, z.status ≠ .failed) (hx : x ∈ l)
    (hc : x.status ≠ .completed) : aggregate l = .running ∨ aggregate l = .queued := by
  unfold aggregate
  rw [if_neg fun ⟨z, hz, h⟩ => hf z hz h, if_neg fun h => hc (h x hx)]
  split_ifs
  exacts [Or.inl rfl, Or.inr rfl]

section Accepted
variable {r : Request} {db : Db} {x : Step}

theorem mem_stepsOf_after (hx : db.steps.get? x.id = some x) {k : String} {y : Step} :
    y ∈ (db.after r x).stepsOf k ↔
      y.jobId = k ∧ (y = x.after r ∨ y ∈ db.steps.rows ∧ y.id ≠ x.id) := by
  rw [mem_stepsOf, Db.after, mapJob_steps, mem_setStep hx (Step.after_id x r), and_comm]

/-- The other jobs do not see an accepted request. -/
theorem aggregate_after_ne (hx : db.steps.get? x.id = some x) {k : String} (hk : k ≠ x.jobId) :
    (∀ y, y ∈ (db.after r x).stepsOf k ↔ y ∈ db.stepsOf k) := by
  intro y
  rw [mem_stepsOf_after hx, mem_stepsOf]
  constructor
  · rintro ⟨hy, rfl | ⟨h, -⟩⟩
    · exact absurd ((Step.after_jobId x r).symm.trans hy) (Ne.symm hk)
    · exact ⟨h, hy⟩
  · rintro ⟨h, hy⟩
    refine ⟨hy, Or.inr ⟨h, fun hid => hk ?_⟩⟩
    rw [← hy, Table.eq_of_key h (Table.mem_of_get? hx) hid]

/-- No other step of its job has failed when a step is completed. -/
def NoLateCompletion (app : App) (db : Db) (r : Request) : Prop :=
  ∀ x, db.steps.get? x.id = some x → Admitted app r x → (∃ k body, r.call = .completeStep k body) →
    ∀ y ∈ db.steps.rows, y.jobId = x.jobId → y.status ≠ .failed

theorem after_mem_stepsOf (hx : db.steps.get? x.id = some x) :
    x.after r ∈ (db.after r x).stepsOf x.jobId :=
  (mem_stepsOf_after hx).2 ⟨Step.after_jobId x r, Or.inl rfl⟩

/-- The other steps of the job are the same. -/
theorem eq_or_mem_stepsOf (hx : db.steps.get? x.id = some x) {y : Step}
    (hy : y ∈ (db.after r x).stepsOf x.jobId) : y = x.after r ∨ y ∈ db.stepsOf x.jobId := by
  obtain ⟨hyj, hy⟩ := (mem_stepsOf_after hx).1 hy
  exact hy.imp id fun hy => mem_stepsOf.2 ⟨hy.1, hyj⟩

/-- A failed step is not the one a request is accepted for. -/
theorem failed_mem_stepsOf (hx : db.steps.get? x.id = some x) (ha : Admitted app r x) {z : Step}
    (hz : z ∈ db.stepsOf x.jobId) (hzf : z.status = .failed) :
    z ∈ (db.after r x).stepsOf x.jobId := by
  obtain ⟨hzm, hzj⟩ := mem_stepsOf.1 hz
  refine (mem_stepsOf_after hx).2 ⟨hzj, Or.inr ⟨hzm, fun hid => ?_⟩⟩
  obtain rfl := Table.eq_of_key hzm (Table.mem_of_get? hx) hid
  have hs := ha.status
  rw [hzf] at hs
  cases hc : r.call <;> simp [hc, Call.fromStatuses] at hs

theorem Aggregated.after_start {k : String} {body : StepEpochRequest}
    (hc : r.call = .startStep k body) (hx : db.steps.get? x.id = some x) (ha : Admitted app r x)
    {j : Job} (hj : j.id = x.jobId) (h : Aggregated db j) :
    Aggregated (db.after r x) (j.after r ((db.after r x).stepsOf x.jobId)) := by
  have hs := ha.status
  have hstatus := h.status
  have hcompleted := h.completedAt
  simp only [hc, Call.fromStatuses, List.mem_singleton] at hs
  rw [hj] at hstatus
  have hrun : (x.after r).status = .running ∧ (x.after r).startedAt.isSome := by
    simp [Step.after, hc]
  have hj' : ∀ l, j.after r l = if j.status = .created ∨ j.status = .queued then { j with
      status := .running, progress := max j.progress 1, updatedAt := r.ambient.clock 1 }
      else j := fun l => by simp only [Job.after, hc]
  rw [hj']
  by_cases hf : ∃ z ∈ db.stepsOf x.jobId, z.status = .failed
  · obtain ⟨z, hz, hzf⟩ := hf
    rw [aggregate_failed hz hzf] at hstatus
    rw [if_neg (by simp [hstatus])]
    exact ⟨by rw [hj, aggregate_failed (failed_mem_stepsOf hx ha hz hzf) hzf, hstatus],
      h.progress, hcompleted⟩
  have hfail : ∀ z ∈ db.stepsOf x.jobId, z.status ≠ .failed := fun z hz h => hf ⟨z, hz, h⟩
  have hagg : aggregate ((db.after r x).stepsOf x.jobId) = .running := by
    refine aggregate_running (fun z hz => ?_) (after_mem_stepsOf hx) (by simp [hrun.1])
      (after_mem_stepsOf hx) hrun.2
    rcases eq_or_mem_stepsOf hx hz with rfl | hz
    · simp [hrun.1]
    · exact hfail z hz
  have hxm : x ∈ db.stepsOf x.jobId := mem_stepsOf.2 ⟨Table.mem_of_get? hx, rfl⟩
  rcases aggregate_open hfail hxm (by simp [hs]) with hagg' | hagg'
  · rw [hagg'] at hstatus
    rw [if_neg (by simp [hstatus])]
    exact ⟨by rw [hj, hagg, hstatus], h.progress, hcompleted⟩
  · rw [hagg'] at hstatus
    rw [if_pos (Or.inr hstatus)]
    refine ⟨by rw [← hagg, ← hj], (fun h => by cases h), ?_⟩
    simpa [hstatus] using hcompleted

theorem Aggregated.after_complete {k : String} {body : StepCompleteRequest}
    (hc : r.call = .completeStep k body) (hx : db.steps.get? x.id = some x)
    (ha : Admitted app r x) (hr : NoLateCompletion app db r)
    (hst : x.status = .running → x.startedAt.isSome) {j : Job} (hj : j.id = x.jobId)
    (h : Aggregated db j) :
    Aggregated (db.after r x) (j.after r ((db.after r x).stepsOf x.jobId)) := by
  have hs := ha.status
  have hstatus := h.status
  have hcompleted := h.completedAt
  simp only [hc, Call.fromStatuses, List.mem_singleton] at hs
  rw [hj] at hstatus
  have hdone : (x.after r).status = .completed ∧ (x.after r).startedAt = x.startedAt := by
    simp [Step.after, hc]
  have hfail : ∀ z ∈ db.stepsOf x.jobId, z.status ≠ .failed := fun z hz =>
    hr x hx ha ⟨k, body, hc⟩ z (mem_stepsOf.1 hz).1 (mem_stepsOf.1 hz).2
  have hxm : x ∈ db.stepsOf x.jobId := mem_stepsOf.2 ⟨Table.mem_of_get? hx, rfl⟩
  rw [aggregate_running hfail hxm (by simp [hs]) hxm (hst hs)] at hstatus
  have hnone : j.completedAt = none := by simpa [hstatus] using hcompleted
  have hj' : j.after r ((db.after r x).stepsOf x.jobId) = j.afterStepCompletion
      ((db.after r x).stepsOf x.jobId) fun i => r.ambient.clock (i + 1) := by
    simp only [Job.after, hc]
  rw [hj']
  by_cases hall : ∀ y ∈ (db.after r x).stepsOf x.jobId, y.status = .completed
  · rw [Job.afterStepCompletion_all (List.ne_nil_of_mem (after_mem_stepsOf hx)) hall]
    exact ⟨by rw [hj, aggregate_completed hall], fun _ => rfl, by simp⟩
  · simp only [not_forall] at hall
    obtain ⟨y, hy, hyc⟩ := hall
    obtain ⟨p, hp⟩ := j.afterStepCompletion_some (fun i => r.ambient.clock (i + 1)) hy hyc
    rw [hp]
    refine ⟨?_, (fun h => by cases h), by simp [hnone]⟩
    rw [hj]
    refine (aggregate_running (fun z hz => ?_) hy hyc (after_mem_stepsOf hx)
      (hdone.2 ▸ hst hs)).symm
    rcases eq_or_mem_stepsOf hx hz with rfl | hz
    · simp [hdone.1]
    · exact hfail z hz

/-- **The job of an accepted request stays the aggregate of its steps.** -/
theorem Aggregated.after (hx : db.steps.get? x.id = some x) (ha : Admitted app r x)
    (hr : NoLateCompletion app db r) (hst : x.status = .running → x.startedAt.isSome) {j : Job}
    (hj : j.id = x.jobId) (h : Aggregated db j) :
    Aggregated (db.after r x) (j.after r ((db.after r x).stepsOf x.jobId)) := by
  cases hc : r.call with
  | startStep => exact h.after_start hc hx ha hj
  | completeStep => exact h.after_complete hc hx ha hr hst hj
  | failStep k body =>
    have hfail : (x.after r).status = .failed := by simp only [Step.after, hc]
    have hj' : ∀ l, j.after r l = { j with
        status := .failed, errorMessage := some body.errorMessage,
        completedAt := some (r.ambient.clock 1), updatedAt := r.ambient.clock 2 } := fun l => by
      simp only [Job.after, hc]
    rw [hj']
    exact ⟨by rw [hj, aggregate_failed (after_mem_stepsOf hx) hfail], (fun h => by cases h),
      by simp⟩
  | _ =>
    have hs := ha.status
    rw [hc] at hs
    cases hs

/-- **An accepted request keeps the invariant.** -/
theorem AggInv.after (hx : db.steps.get? x.id = some x) (ha : Admitted app r x)
    (hr : NoLateCompletion app db r) (hst : x.status = .running → x.startedAt.isSome)
    (h : AggInv db) : AggInv (db.after r x) := by
  constructor
  · intro j' hj' hne
    obtain ⟨j, hjm, rfl⟩ := mem_mapJob.1 hj'
    by_cases hk : j.id = x.jobId
    · have hne' : db.stepsOf j.id ≠ [] :=
        List.ne_nil_of_mem (mem_stepsOf.2 ⟨Table.mem_of_get? hx, hk.symm⟩)
      rw [if_pos hk]
      exact Aggregated.after hx ha hr hst hk (h.jobs j hjm hne')
    · rw [if_neg hk] at hne ⊢
      have hsame := aggregate_after_ne (r := r) hx hk
      obtain ⟨y, hy⟩ := List.exists_mem_of_ne_nil _ hne
      have hj := h.jobs j hjm (List.ne_nil_of_mem ((hsame y).1 hy))
      exact ⟨hj.status.trans (aggregate_congr hsame).symm, hj.progress, hj.completedAt⟩
  · intro y hy
    rw [Db.after, mapJob_get?, Option.isSome_map, setStep_jobs]
    rcases ((mem_stepsOf_after (r := r) hx).1 (mem_stepsOf.2 ⟨hy, rfl⟩)).2 with rfl | ⟨hy, -⟩
    · rw [Step.after_jobId]
      exact h.owned x (Table.mem_of_get? hx)
    · exact h.owned y hy

/-- A step completed after another one failed takes its job out of `failed`. -/
theorem not_aggregated_after (hx : db.steps.get? x.id = some x) (ha : Admitted app r x)
    (hc : ∃ k body, r.call = .completeStep k body) {y : Step} (hy : y ∈ db.steps.rows)
    (hj : y.jobId = x.jobId) (hf : y.status = .failed) (job : Job) :
    (job.after r ((db.after r x).stepsOf x.jobId)).status ≠
      aggregate ((db.after r x).stepsOf x.jobId) := by
  obtain ⟨k, body, hc⟩ := hc
  have hym : y ∈ (db.after r x).stepsOf x.jobId :=
    failed_mem_stepsOf hx ha (mem_stepsOf.2 ⟨hy, hj⟩) hf
  obtain ⟨p, hp⟩ := job.afterStepCompletion_some (fun i => r.ambient.clock (i + 1)) hym
    (by simp [hf])
  rw [aggregate_failed hym hf]
  simp [Job.after, hc, hp]

end Accepted

/-- **One request keeps the invariant.** -/
theorem AggInv.serve {db₀ db : Db} {P : Db → Request → Prop} {r : Request} (h₀ : db₀.Initial)
    (hs : app.controller.Served P db₀ db) (hr : NoLateCompletion app db r) (h : AggInv db) :
    AggInv ((app.handle r).exec db).2 := by
  by_cases hc : r.call.fromStatuses = []
  · exact exec_inv (fun _ _ h he => h.effect hc he) h
  by_cases hadm : ∃ x, db.steps.get? x.id = some x ∧ Admitted app r x
  · obtain ⟨x, hx, ha⟩ := hadm
    obtain ⟨tr, c, hrun, rfl⟩ := hs.run
    rw [exec_admitted hx ha]
    exact h.after hx ha hr fun hst => (App.Run.inv h₀ hrun x.id x hx).started (Or.inl hst)
  · obtain ⟨⟨e, he⟩, -⟩ := exec_rejected hc fun x hx ha => hadm ⟨x, hx, ha⟩
    rw [he]
    exact h

/-- **One request breaks the invariant only by completing a step late.** -/
theorem AggInv.late {db : Db} {r : Request} (h : AggInv db) (hr : ¬ NoLateCompletion app db r) :
    ∃ j ∈ ((app.handle r).exec db).2.jobs.rows,
      Db.stepsOf ((app.handle r).exec db).2 j.id ≠ [] ∧
        ¬ Aggregated ((app.handle r).exec db).2 j := by
  simp only [NoLateCompletion, not_forall, not_not] at hr
  obtain ⟨x, hx, ha, hc, y, hy, hyj, hyf⟩ := hr
  rw [exec_admitted hx ha]
  obtain ⟨job, hjob⟩ := Option.isSome_iff_exists.1 (h.owned x (Table.mem_of_get? hx))
  have hid : job.id = x.jobId := Table.key_of_get? hjob
  have hid' : (job.after r ((db.after r x).stepsOf x.jobId)).id = x.jobId :=
    (Job.after_id r _ job).trans hid
  have hmem : job.after r ((db.after r x).stepsOf x.jobId) ∈ (db.after r x).jobs.rows :=
    mem_mapJob.2 ⟨job, Table.mem_of_get? hjob, if_pos hid⟩
  refine ⟨_, hmem, ?_, fun hagg => ?_⟩
  · exact List.ne_nil_of_mem (hid' ▸ after_mem_stepsOf hx)
  · refine not_aggregated_after hx ha hc hy hyj hyf job (hagg.status.trans ?_)
    exact congrArg (fun k => aggregate ((db.after r x).stepsOf k)) hid'

/-- **The job status is the aggregate of its steps.**  While requests are
    handled one after another and no step is completed after another step of
    its job failed, every job with a step has the aggregate status, progress
    100 when completed, and `completed_at` set exactly when terminal; the next
    request keeps this exactly if it is not such a completion; and then it
    changes no terminal status. -/
theorem job_aggregate {db₀ db : Db} (h₀ : db₀.Initial)
    (h : app.controller.Served (NoLateCompletion app) db₀ db) :
    (∀ j ∈ db.jobs.rows, db.stepsOf j.id ≠ [] → Aggregated db j) ∧
    (∀ r, NoLateCompletion app db r ↔ ∀ j ∈ ((app.handle r).exec db).2.jobs.rows,
      Db.stepsOf ((app.handle r).exec db).2 j.id ≠ [] → Aggregated ((app.handle r).exec db).2 j) ∧
    ∀ r, NoLateCompletion app db r → ∀ j ∈ db.jobs.rows, db.stepsOf j.id ≠ [] →
      j.status = .completed ∨ j.status = .failed →
      ∃ j', ((app.handle r).exec db).2.jobs.get? j.id = some j' ∧ j'.status = j.status := by
  have key : ∀ db, app.controller.Served (NoLateCompletion app) db₀ db → AggInv db := by
    intro db h
    induction h with
    | init => exact h₀.aggInv
    | serve h r hr ih => exact ih.serve h₀ h hr
  refine ⟨(key db h).jobs, fun r => ⟨fun hr => (key _ (h.serve r hr)).jobs, fun hall => ?_⟩,
    fun r hr j hj hne hterm => ?_⟩
  · by_contra hr
    obtain ⟨j, hj, hne, hagg⟩ := (key db h).late hr
    exact hagg (hall j hj hne)
  have hnext := key _ (h.serve r hr)
  have hR := exec_rely app r db
  have hjobs : (db.jobs.get? j.id).isSome := by
    rw [show db.jobs.get? j.id = some j from Table.get?_of_mem hj]; rfl
  obtain ⟨j', hj'⟩ := Option.isSome_iff_exists.1 (hR.job j.id hjobs)
  have hid : j'.id = j.id := Table.key_of_get? hj'
  refine ⟨j', hj', ?_⟩
  have hstep : ∃ x, x ∈ Db.stepsOf ((app.handle r).exec db).2 j'.id := by
    obtain ⟨x, hx⟩ := List.exists_mem_of_ne_nil _ hne
    obtain ⟨hx, hxj⟩ := mem_stepsOf.1 hx
    obtain ⟨x', hx', hk⟩ := hR.row x.id x (Table.get?_of_mem hx)
    exact ⟨x', mem_stepsOf.2 ⟨Table.mem_of_get? hx', by rw [hk.job, hxj, hid]⟩⟩
  obtain ⟨y, hy⟩ := hstep
  rw [(hnext.jobs j' (Table.mem_of_get? hj') (List.ne_nil_of_mem hy)).status]
  have hstatus := ((key db h).jobs j hj hne).status
  rcases hterm with hterm | hterm
  · have hall : AllCompleted j.id db := fun x hx hxj =>
      all_of_aggregate (hstatus.symm.trans hterm) x (mem_stepsOf.2 ⟨hx, hxj⟩)
    rw [hterm]
    exact aggregate_completed fun x hx => (stable_allCompleted j.id db _ ⟨hjobs, hall⟩ hR).2 x
      (mem_stepsOf.1 hx).1 ((mem_stepsOf.1 hx).2.trans hid)
  · obtain ⟨x, hx, hxf⟩ := exists_of_aggregate (hstatus.symm.trans hterm)
    obtain ⟨x', hx', hxj, hxf⟩ := stable_someFailed j.id db _
      ⟨x, (mem_stepsOf.1 hx).1, (mem_stepsOf.1 hx).2, hxf⟩ hR
    rw [hterm]
    exact aggregate_failed (mem_stepsOf.2 ⟨hx', hxj.trans hid.symm⟩) hxf

theorem noLateCompletion_of_call {db : Db} {r : Request}
    (h : ∀ k body, r.call ≠ .completeStep k body) : NoLateCompletion app db r :=
  fun _ _ _ ⟨k, body, hc⟩ => absurd hc (h k body)

/-- Both steps of the sample job are assigned and started, then `step_a` fails. -/
def sampleOneFailed : List Request :=
  [sampleRequest 2 (.heartbeatNode "mac" sampleHeartbeat),
    sampleRequest 3 (.startStep "step_a" ⟨1⟩), sampleRequest 4 (.startStep "step_b" ⟨1⟩),
    sampleRequest 5 (.failStep "step_a" { assignmentEpoch := 1, errorMessage := "no audio" })]

/-- The database after these requests. -/
def sampleFailed : Db := sampleServe (sampleQueue "video_to_subtitle_pipeline") sampleOneFailed

/-- The job of a failed step is failed while the other step runs. -/
theorem job_aggregate_sample :
    sampleFailed.steps.rows.map Step.status = [.failed, .running] ∧
      sampleFailed.jobs.rows.map Job.status = [.failed] ∧
      ∀ j ∈ sampleFailed.jobs.rows, sampleFailed.stepsOf j.id ≠ [] → Aggregated sampleFailed j := by
  have hserved : sampleApp.controller.Served (NoLateCompletion sampleApp)
      (sampleQueue "video_to_subtitle_pipeline") sampleFailed := by
    refine sampleServe_served _ sampleOneFailed fun r hr db => noLateCompletion_of_call ?_
    simp only [sampleOneFailed, List.mem_cons, List.not_mem_nil, or_false] at hr
    rcases hr with rfl | rfl | rfl | rfl <;> exact nofun
  exact ⟨by decide +kernel, by decide +kernel, (job_aggregate (sampleQueue_initial _) hserved).1⟩

/-- The completion of the other step puts the failed job back to running. -/
theorem job_aggregate_fails :
    ∃ db, sampleApp.controller.Served (fun _ _ => True)
        (sampleQueue "video_to_subtitle_pipeline") db ∧
      ∃ j ∈ db.jobs.rows, j.status = .running ∧ j.completedAt.isSome ∧
        ∃ x ∈ db.stepsOf j.id, x.status = .failed := by
  refine ⟨_, sampleServe_served _ (sampleOneFailed ++
    [sampleRequest 6 (.completeStep "step_b" { assignmentEpoch := 1 })]) fun _ _ _ => trivial, ?_⟩
  decide +kernel

end MediaOrchard
