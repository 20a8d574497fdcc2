/-
  What the row of a job says is true, at any moment of any interleaving.

  * `Shows j x`: the columns of job `j` agree with each other and with its step `x`,
    which may be further than the row;
  * `Job.Later`: what a job's row has once said, it does not take back;
  * `Tells`: what every action keeps; the handlers rely on it between their reads and
    their commits, so a commit is of a row read earlier;
  * `handle_tells`: every action of every handler keeps it;
  * `job_rows_truthful`: the rows of the jobs over whole runs.
-/
import MediaOrchard.Proof.Rows
import MediaOrchard.Proof.Exec

namespace MediaOrchard

open Keyed Interleave Prog

variable {app : App} {r : Request}

/-! ## Rows of jobs -/

/-- What the row of a job shows of its step. -/
structure Shows (j : Job) (x : Step) : Prop where
  status : j.status = .queued ∨ j.status = .running ∨ j.status = .completed ∨ j.status = .failed
  queued : j.status = .queued → j.progress = 0 ∧ j.errorMessage = none ∧ j.completedAt = none
  running : j.status = .running → j.progress = 1 ∧ x.startedAt.isSome
  completed : j.status = .completed →
    j.progress = 100 ∧ j.completedAt.isSome ∧ x.status = .completed
  failed : j.status = .failed → j.errorMessage.isSome ∧ j.completedAt.isSome ∧ x.status = .failed
  progress : j.progress = 0 ∨ j.progress = 1 ∨ (j.progress = 100 ∧ x.status = .completed)
  error : ∀ msg, j.errorMessage = some msg → x.status = .failed ∧ x.errorMessage = some msg
  ended : j.completedAt.isSome → x.status = .completed ∨ x.status = .failed

/-- A row stays true of its step while others change the step. -/
theorem Shows.kept {j : Job} {x x' : Step} (h : Shows j x) (hk : RowKept x x') : Shows j x' where
  status := h.status
  queued := h.queued
  running hs := ⟨(h.running hs).1, hk.started (h.running hs).2⟩
  completed hs := by
    obtain ⟨hp, hc, hx⟩ := h.completed hs
    exact ⟨hp, hc, by rw [hk.final (Or.inl hx), hx]⟩
  failed hs := by
    obtain ⟨he, hc, hx⟩ := h.failed hs
    exact ⟨he, hc, by rw [hk.final (Or.inr hx), hx]⟩
  progress := by
    rcases h.progress with hp | hp | ⟨hp, hx⟩
    · exact Or.inl hp
    · exact Or.inr (Or.inl hp)
    · exact Or.inr (Or.inr ⟨hp, by rw [hk.final (Or.inl hx), hx]⟩)
  error msg hm := by
    obtain ⟨hx, he⟩ := h.error msg hm
    rw [hk.final (Or.inr hx)]
    exact ⟨hx, he⟩
  ended hc := by
    have hx := h.ended hc
    rw [hk.final hx]
    exact hx

/-- The row of a job after changes: it is not queued again, and the error and the time of
    its end stay. -/
structure Job.Later (j j' : Job) : Prop where
  begun : j.status ≠ .queued → j'.status ≠ .queued
  error : j.errorMessage.isSome → j'.errorMessage = j.errorMessage
  ended : j.completedAt.isSome → j'.completedAt.isSome

theorem Job.Later.refl (j : Job) : j.Later j := ⟨fun h => h, fun _ => rfl, fun h => h⟩

theorem Job.Later.trans {a b c : Job} (h : a.Later b) (h' : b.Later c) : a.Later c where
  begun hs := h'.begun (h.begun hs)
  error he := by
    have hb := h.error he
    rw [← hb] at he ⊢
    exact h'.error he
  ended hc := h'.ended (h.ended hc)

/-- The time of the end is there after a commit that sets it. -/
theorem Job.Later.ended_flush {old cur : Job} (h : old.Later cur) (now : Instant) :
    (flushCol old.completedAt (some now) cur.completedAt).isSome := by
  unfold flushCol
  split_ifs with he
  · exact h.ended (he ▸ rfl)
  · rfl

/-- A column that the object has not changed. -/
theorem flushCol_unchanged {α : Type} [DecidableEq α] (old cur : α) : flushCol old old cur = cur :=
  if_pos rfl

/-! ## Commits

A commit writes the columns in which the object differs from the row `old` that was read;
the row is `cur` by then. -/

section
variable {old cur : Job} {x : Step}

/-- `mark_job_running` -/
theorem Shows.mark_running (hold : Shows old x) (hcur : Shows cur x) {now : Instant}
    (hs : old.status = .created ∨ old.status = .queued)
    (hx : x.startedAt.isSome) :
    let row := Job.flush old { old with
      status := .running, progress := max old.progress 1, updatedAt := now } cur
    Shows row x ∧ cur.Later row := by
  have hq : old.status = .queued := hs.resolve_left fun hc => by
    rcases hold.status with h | h | h | h <;> rw [hc] at h <;> cases h
  have hp : old.progress = 0 := (hold.queued hq).1
  have hrow : Job.flush old { old with
      status := .running, progress := max old.progress 1, updatedAt := now } cur =
      { cur with
        status := .running
        progress := 1
        updatedAt := flushCol old.updatedAt now cur.updatedAt } := by
    simp [Job.flush, flushCol, hq, hp]
  intro row
  rw [show row = _ from hrow]
  exact ⟨⟨Or.inr (Or.inl rfl), by rintro ⟨⟩, fun _ => ⟨rfl, hx⟩, by rintro ⟨⟩,
    by rintro ⟨⟩, Or.inr (Or.inl rfl), hcur.error, hcur.ended⟩,
    ⟨fun _ => by rintro ⟨⟩, fun _ => rfl, fun h => h⟩⟩

/-- `mark_job_after_step_completion`, when the step is completed. -/
theorem Shows.mark_completed (hold : Shows old x) (hcur : Shows cur x) (hlater : old.Later cur)
    {now now' : Instant} (hx : x.status = .completed) :
    let row := Job.flush old { old with
      progress := 100, status := .completed, completedAt := some now, updatedAt := now' } cur
    Shows row x ∧ cur.Later row := by
  have hend := hlater.ended_flush now
  intro row
  by_cases hs : old.status = .completed
  · -- it was read as completed: only the times are written
    have hp : old.progress = 100 := (hold.completed hs).1
    have hrow : row = { cur with
        completedAt := flushCol old.completedAt (some now) cur.completedAt
        updatedAt := flushCol old.updatedAt now' cur.updatedAt } := by
      simp [row, Job.flush, flushCol, hs, hp]
    have hbegun : cur.status ≠ .queued := hlater.begun (by rw [hs]; decide)
    rw [hrow]
    exact ⟨⟨hcur.status, fun h => absurd h hbegun, hcur.running,
      fun h => ⟨(hcur.completed h).1, hend, hx⟩, fun h => ⟨(hcur.failed h).1, hend,
        (hcur.failed h).2.2⟩, hcur.progress, hcur.error, fun _ => Or.inl hx⟩,
      ⟨fun h => h, fun _ => rfl, fun _ => hend⟩⟩
  · have hp : old.progress ≠ 100 := by
      rcases hold.status with h | h | h | h
      · rw [(hold.queued h).1]; decide
      · rw [(hold.running h).1]; decide
      · exact absurd h hs
      · rw [(hold.failed h).2.2] at hx; cases hx
    have hrow : row = { cur with
        status := .completed
        progress := 100
        completedAt := flushCol old.completedAt (some now) cur.completedAt
        updatedAt := flushCol old.updatedAt now' cur.updatedAt } := by
      simp [row, Job.flush, flushCol, Ne.symm hs, hp.symm]
    rw [hrow]
    exact ⟨⟨Or.inr (Or.inr (Or.inl rfl)), by rintro ⟨⟩, by rintro ⟨⟩,
      fun _ => ⟨rfl, hend, hx⟩, by rintro ⟨⟩, Or.inr (Or.inr ⟨rfl, hx⟩), hcur.error,
      fun _ => Or.inl hx⟩, ⟨fun _ => by rintro ⟨⟩, fun _ => rfl, fun _ => hend⟩⟩

/-- `mark_job_failed` -/
theorem Shows.mark_failed (hcur : Shows cur x) (hlater : old.Later cur) {now now' : Instant}
    {msg : String} (hx : x.status = .failed) (hmsg : x.errorMessage = some msg) :
    let row := Job.flush old { old with
      status := .failed, errorMessage := some msg, completedAt := some now,
      updatedAt := now' } cur
    Shows row x ∧ cur.Later row := by
  have hend := hlater.ended_flush now
  -- whoever has written the error before has written the same
  have hsame : ∀ {j : Job}, Shows j x → j.errorMessage.isSome → j.errorMessage = some msg := by
    intro j hj he
    obtain ⟨msg', he⟩ := Option.isSome_iff_exists.1 he
    rw [he, ← (hj.error msg' he).2, hmsg]
  have herr : flushCol old.errorMessage (some msg) cur.errorMessage = some msg := by
    unfold flushCol
    split_ifs with he
    · rw [hlater.error (he ▸ rfl), ← he]
    · rfl
  intro row
  have hrow : row = { cur with
      status := flushCol old.status .failed cur.status
      errorMessage := some msg
      completedAt := flushCol old.completedAt (some now) cur.completedAt
      updatedAt := flushCol old.updatedAt now' cur.updatedAt } := by
    simp [row, Job.flush, herr, flushCol_unchanged]
  have hstatus : flushCol old.status .failed cur.status = .failed ∨
      (cur.status = .running ∧ flushCol old.status .failed cur.status = .running) := by
    unfold flushCol
    split_ifs with hs
    · rcases hcur.status with h | h | h | h
      · exact absurd h (hlater.begun (by rw [← hs]; decide))
      · exact Or.inr ⟨h, h⟩
      · rw [(hcur.completed h).2.2] at hx
        cases hx
      · exact Or.inl h
    · exact Or.inl rfl
  have herror : ∀ m, some msg = some m → x.status = .failed ∧ x.errorMessage = some m :=
    fun m hm => ⟨hx, hmsg.trans hm⟩
  rw [hrow]
  rcases hstatus with h | ⟨hc, h⟩ <;> rw [h]
  · exact ⟨⟨Or.inr (Or.inr (Or.inr rfl)), by rintro ⟨⟩, by rintro ⟨⟩,
      by rintro ⟨⟩, fun _ => ⟨rfl, hend, hx⟩, hcur.progress, herror, fun _ => Or.inr hx⟩,
      ⟨fun _ => by rintro ⟨⟩, fun he => (hsame hcur he).symm, fun _ => hend⟩⟩
  · exact ⟨⟨Or.inr (Or.inl rfl), by rintro ⟨⟩, fun _ => hcur.running hc,
      by rintro ⟨⟩, by rintro ⟨⟩, hcur.progress, herror, fun _ => Or.inr hx⟩,
      ⟨fun _ => by rintro ⟨⟩, fun he => (hsame hcur he).symm, fun _ => hend⟩⟩

end

/-! ## What every action keeps -/

/-- The rows of the jobs tell the truth; every job has one step. -/
structure Db.Truthful (db : Db) : Prop where
  single : ∀ x ∈ db.steps.rows, ∀ y ∈ db.steps.rows, x.jobId = y.jobId → x = y
  owned : ∀ x ∈ db.steps.rows, (db.jobs.get? x.jobId).isSome
  shows : ∀ x ∈ db.steps.rows, ∀ j ∈ db.jobs.rows, x.jobId = j.id → Shows j x

theorem Db.empty_truthful : Db.empty.Truthful where
  single _ h := absurd h List.not_mem_nil
  owned _ h := absurd h List.not_mem_nil
  shows _ h := absurd h List.not_mem_nil

/-- No row of a job takes back what it has said. -/
def JobsLater (db db' : Db) : Prop :=
  ∀ k j, db.jobs.get? k = some j → ∃ j', db'.jobs.get? k = some j' ∧ j.Later j'

theorem JobsLater.of_eq {db db' : Db} (h : db'.jobs = db.jobs) : JobsLater db db' :=
  fun _ j hj => ⟨j, h ▸ hj, .refl j⟩

theorem JobsLater.trans {a b c : Db} (h : JobsLater a b) (h' : JobsLater b c) : JobsLater a c := by
  intro k j hj
  obtain ⟨j₁, hj₁, h₁⟩ := h k j hj
  obtain ⟨j₂, hj₂, h₂⟩ := h' k j₁ hj₁
  exact ⟨j₂, hj₂, h₁.trans h₂⟩

/-- What every action keeps, and every handler relies on. -/
structure Tells (db db' : Db) : Prop where
  rely : Rely db db'
  truthful : db.Truthful → db'.Truthful
  later : db.Truthful → JobsLater db db'

/-- A change of steps in place. -/
theorem Tells.of_update {db db' : Db} (f : Step → Step) (hf)
    (hsteps : db'.steps = db.steps.update f hf) (hjobs : db'.jobs = db.jobs)
    (h : ∀ x ∈ db.steps.rows, RowKept x (f x)) : Tells db db' where
  rely := Rely.of_update f hf hsteps (fun _ hk => hjobs ▸ hk) h
  truthful hdb := by
    constructor <;> rw [hsteps] <;> intro x' hx' <;> obtain ⟨x, hx, rfl⟩ := Table.mem_update.1 hx'
    · intro y' hy' he
      obtain ⟨y, hy, rfl⟩ := Table.mem_update.1 hy'
      rw [(h x hx).job, (h y hy).job] at he
      rw [hdb.single x hx y hy he]
    · rw [hjobs, (h x hx).job]
      exact hdb.owned x hx
    · intro j hj he
      rw [hjobs] at hj
      exact (hdb.shows x hx j hj ((h x hx).job ▸ he)).kept (h x hx)
  later _ := .of_eq hjobs

/-- A job that has just been made. -/
theorem newRows_shows (app : App) (env : Ambient) (body : JobCreateRequest)
    (inputFile outputDir : String) :
    Shows (newRows app env body inputFile outputDir).1
      (newRows app env body inputFile outputDir).2.2 where
  status := Or.inl rfl
  queued _ := ⟨rfl, rfl, rfl⟩
  running := nofun
  completed := nofun
  failed := nofun
  progress := Or.inl rfl
  error _ := nofun
  ended := nofun

/-- The rows of a new job. -/
theorem Tells.of_create {db : Db} {env : Ambient} {body : JobCreateRequest}
    {inputFile outputDir : String} {jobs : Table Job} {plans : Table Plan} {steps : Table Step}
    (hrely : Rely db { db with jobs := jobs, plans := plans, steps := steps })
    (hj : db.jobs.insert? (newRows app env body inputFile outputDir).1 = some jobs)
    (hs : db.steps.insert? (newRows app env body inputFile outputDir).2.2 = some steps) :
    Tells db { db with jobs := jobs, plans := plans, steps := steps } where
  rely := hrely
  truthful hdb := by
    obtain ⟨hnone, hjobs⟩ := Table.insert?_eq_some hj
    have hsteps := (Table.insert?_eq_some hs).2
    have hfresh : ∀ x ∈ db.steps.rows,
        x.jobId ≠ (newRows app env body inputFile outputDir).1.id := by
      intro x hx he
      have := hdb.owned x hx
      rw [he, ← Job.key_eq, hnone] at this
      cases this
    refine ⟨fun x hx y hy he => ?_, fun x hx => ?_, fun x hx j hjm he => ?_⟩
    · rw [hsteps, List.mem_append, List.mem_singleton] at hx hy
      rcases hx with hx | rfl <;> rcases hy with hy | rfl
      · exact hdb.single x hx y hy he
      · exact absurd he (hfresh x hx)
      · exact absurd he.symm (hfresh y hy)
      · rfl
    · rw [hsteps, List.mem_append, List.mem_singleton] at hx
      rcases hx with hx | rfl
      · exact hrely.job _ (hdb.owned x hx)
      · exact Option.isSome_of_eq_some (Table.get?_insert_self hj)
    · rw [hsteps, List.mem_append, List.mem_singleton] at hx
      rw [hjobs, List.mem_append, List.mem_singleton] at hjm
      rcases hx with hx | rfl <;> rcases hjm with hjm | rfl
      · exact hdb.shows x hx j hjm he
      · exact absurd he (hfresh x hx)
      · exact absurd he.symm (Table.get?_eq_none.1 hnone j hjm)
      · exact newRows_shows app env body inputFile outputDir
  later _ k j hk := by
    refine ⟨j, ?_, .refl j⟩
    show jobs.get? k = some j
    rw [Table.get?_insert hj, if_neg fun he => ?_, hk]
    rw [← he, (Table.insert?_eq_some hj).1] at hk
    cases hk

/-- **An effect that commits no job keeps it.** -/
theorem Effect.tells {db db' : Db} (h : Effect app r db db')
    (hjobs : ∀ old new, JobWrite db r old new → db'.jobs = db.jobs) : Tells db db' := by
  have hrely := h.rely
  cases h with
  | read => exact ⟨hrely, id, fun _ => .of_eq rfl⟩
  | steps f hf h | heartbeat f hf _ _ _ h =>
    exact .of_update f hf rfl rfl fun x hx => kept_of_write (h x hx)
  | register => exact ⟨hrely, fun hdb => ⟨hdb.single, hdb.owned, hdb.shows⟩, fun _ => .of_eq rfl⟩
  | create _ hj hs => exact .of_create hrely hj hs
  | job hw =>
    have hsame := hjobs _ _ hw
    dsimp only at hsame
    refine ⟨hrely, fun hdb => ?_, fun _ => .of_eq hsame⟩
    rw [hsame]
    exact hdb

theorem tells_recoverStep (stepId : String) (db : Db) : Tells db (recoverStep stepId db) := by
  refine .of_update _ (fun r => by split_ifs <;> simp [recoverRow_id]) rfl rfl fun x _ => ?_
  split_ifs
  exacts [recoverRow_kept x, .refl x]

/-! ## The handlers -/

/-- `p`, started under `P`, keeps the rows truthful and returns under `Q`. -/
abbrev Candid {α : Type} (P : Db → Prop) (p : Handler α) (Q : α → Db → Prop) : Prop :=
  Spec Tells Tells Q p P

theorem stable_truthful : Stable Tells Db.Truthful := fun _ _ hdb h => h.truthful hdb

/-- The action leaves the jobs alone. -/
def SameJobs (db db' : Db) : Prop := db'.jobs = db.jobs

/-- A program that leaves the jobs alone. -/
theorem Triple.candid {α : Type} {P : Db → Prop} {p : Handler α} {Q : α → Db → Prop}
    (h : Triple app r P p Q) (hjobs : Acts SameJobs p) :
    Candid (fun db => P db ∧ db.Truthful) p fun a db => Q a db ∧ db.Truthful :=
  Spec.frame ((h.both hjobs).weaken (fun _ _ ht => ht.rely) fun _ _ ⟨he, hs⟩ =>
    he.tells fun _ _ _ => hs) stable_truthful fun _ _ ht => ht.truthful

/-- What the handler that has read the job as `job` goes on with. -/
structure Seen (sid : String) (A : Step → Prop) (job : Job) (db : Db) : Prop where
  truthful : db.Truthful
  row : ∃ x, db.steps.get? sid = some x ∧ A x ∧ x.jobId = job.id ∧ Shows job x
  later : ∃ cur, db.jobs.get? job.id = some cur ∧ job.Later cur

section
variable {sid : String} {A : Step → Prop} {job new : Job}

theorem stable_seen (hA : ∀ x x', RowKept x x' → A x → A x') : Stable Tells (Seen sid A job) := by
  rintro db db' ⟨hdb, ⟨x, hx, ha, hj, hshow⟩, cur, hcur, hlater⟩ h
  obtain ⟨x', hx', hk⟩ := h.rely.row sid x hx
  obtain ⟨cur', hcur', hlater'⟩ := h.later hdb _ _ hcur
  exact ⟨h.truthful hdb, ⟨x', hx', hA x x' hk ha, hk.job.trans hj, hshow.kept hk⟩, cur', hcur',
    hlater.trans hlater'⟩

/-- The read of the job. -/
theorem readJob_candid (hA : ∀ x x', RowKept x x' → A x → A x') (jobId : String) :
    Candid (fun db => HoldsRow sid (fun x => A x ∧ x.jobId = jobId) db ∧ db.Truthful)
      (read fun db => db.jobs.get? jobId) fun o db =>
        ∀ job, o = some job → job.id = jobId ∧ Seen sid A job db := by
  refine Spec.read (fun db _ => ⟨.refl db, id, fun _ => .of_eq rfl⟩) fun db hdb => ?_
  obtain ⟨⟨x, hx, ha, hxj⟩, htrue⟩ := hdb
  refine ⟨fun db' => ∀ job, db.jobs.get? jobId = some job → job.id = jobId ∧ Seen sid A job db',
    fun s s' h ht job hjob => ⟨(h job hjob).1, stable_seen hA s s' (h job hjob).2 ht⟩,
    fun job hjob => ?_, fun _ h => h⟩
  have hid : job.id = jobId := Table.key_of_get? hjob
  exact ⟨hid, htrue, ⟨x, hx, ha, hxj.trans hid.symm,
    htrue.shows x (Table.mem_of_get? hx) job (Table.mem_of_get? hjob) (hxj.trans hid.symm)⟩,
    job, hid ▸ hjob, .refl job⟩

/-- **A commit of a job that was read earlier.** -/
theorem commitJob_candid {P : Db → Prop} (hseen : ∀ db, P db → Seen sid A job db)
    (hrow : ∀ cur x, Shows job x → Shows cur x → job.Later cur → A x →
      Shows (Job.flush job new cur) x ∧ cur.Later (Job.flush job new cur)) :
    Candid P (commitJob job new) fun _ _ => True := by
  refine Spec.atomic (fun db hP => ?_) fun _ _ =>
    ⟨fun _ => True, Stable.const True, trivial, fun _ _ => trivial⟩
  obtain ⟨hdb, ⟨x, hx, ha, hxj, hshow⟩, cur, hcur, hlater⟩ := hseen db hP
  have hmem := Table.mem_of_get? hx
  obtain ⟨hflush, hflater⟩ := hrow cur x hshow
    (hdb.shows x hmem cur (Table.mem_of_get? hcur) (hxj.trans (Table.key_of_get? hcur).symm))
    hlater ha
  refine ⟨⟨fun _ x h => ⟨x, h, .refl x⟩, fun _ x h _ => ⟨x, h⟩, fun k hk => by simpa using hk⟩,
    fun _ => ⟨hdb.single, fun y hy => by simpa using hdb.owned y hy, fun y hy row hr hyj => ?_⟩,
    fun _ k j hk => ?_⟩
  · obtain ⟨j, hj, rfl⟩ := List.mem_map.1 hr
    split_ifs at hyj ⊢ with hid
    · -- the step of this job is the one that was written
      obtain rfl : j = cur := Table.eq_of_key hj (Table.mem_of_get? hcur)
        (hid.trans (Table.key_of_get? hcur).symm)
      obtain rfl := hdb.single y hy x hmem (hyj.trans (hid.trans hxj.symm))
      exact hflush
    · exact hdb.shows y hy j hj hyj
  · refine ⟨if j.id = job.id then Job.flush job new j else j, by simp [hk], ?_⟩
    split_ifs with hid
    · obtain rfl : j = cur := Option.some.inj (hk.symm.trans
        ((Table.key_of_get? hk).symm.trans hid ▸ hcur))
      exact hflater
    · exact .refl j

/-- `mark_job_running`, after the step was started. -/
theorem markJobRunning_candid (clock : ℕ → Instant) (jobId : String) :
    Candid (fun db => HoldsRow sid (fun x => x.startedAt.isSome ∧ x.jobId = jobId) db ∧ db.Truthful)
      (markJobRunning clock jobId) fun _ _ => True := by
  refine Spec.bind (readJob_candid (fun x x' hk => hk.started) jobId) fun o => ?_
  cases o with
  | none => exact fun _ _ => trivial
  | some job =>
    dsimp only
    split_ifs with hs
    · exact commitJob_candid (fun _ h => (h job rfl).2) fun cur x hold hcur _ hx =>
        hold.mark_running hcur hs hx
    · exact fun _ _ => trivial

/-- `mark_job_failed`, after the step has failed. -/
theorem markJobFailed_candid (clock : ℕ → Instant) (jobId msg : String) :
    Candid (fun db => HoldsRow sid
        (fun x => (x.status = .failed ∧ x.errorMessage = some msg) ∧ x.jobId = jobId) db ∧ db.Truthful)
      (markJobFailed clock jobId msg) fun _ _ => True := by
  refine Spec.bind (readJob_candid (fun x x' hk h => hk.final (Or.inr h.1) ▸ h) jobId) fun o => ?_
  cases o with
  | none => exact fun _ _ => trivial
  | some job =>
    exact commitJob_candid (fun _ h => (h job rfl).2) fun cur x _ hcur hlater hx =>
      hcur.mark_failed hlater hx.1 hx.2

/-- `mark_job_after_step_completion`: the steps that it reads are the completed one. -/
theorem markJobAfterStepCompletion_candid (clock : ℕ → Instant) (jobId : String) :
    Candid (fun db => HoldsRow sid (fun x => x.status = .completed ∧ x.jobId = jobId) db ∧ db.Truthful)
      (markJobAfterStepCompletion clock jobId) fun _ _ => True := by
  have hA : ∀ x x', RowKept x x' → x.status = .completed → x'.status = .completed :=
    fun x x' hk h => hk.final (Or.inl h) ▸ h
  refine Spec.bind (readJob_candid hA jobId) fun o => ?_
  cases o with
  | none => exact fun _ _ => trivial
  | some job =>
    refine Spec.bind (Q := fun steps db => Seen sid (fun x => x.status = .completed) job db ∧
      steps ≠ [] ∧ ∀ y ∈ steps, y.status = .completed) ?_ fun steps => ?_
    · refine Spec.read (fun db _ => ⟨.refl db, id, fun _ => .of_eq rfl⟩) fun db h => ?_
      obtain ⟨hid, hseen⟩ := h job rfl
      refine ⟨_, (stable_seen hA).and (Stable.const _), ⟨hseen, ?_⟩, fun _ h => h⟩
      obtain ⟨hdb, ⟨x, hx, hc, hxj, -⟩, -⟩ := hseen
      have hmem := Table.mem_of_get? hx
      refine ⟨List.ne_nil_of_mem (Table.mem_select.2 ⟨hmem, decide_eq_true (hxj.trans hid)⟩),
        fun y hy => ?_⟩
      obtain ⟨hy, hyj⟩ := Table.mem_select.1 hy
      rw [hdb.single y hy x hmem ((of_decide_eq_true hyj).trans (hxj.trans hid).symm)]
      exact hc
    · refine Spec.assume (fun _ h => h.2) fun ⟨hne, hall⟩ => ?_
      rw [Job.afterStepCompletion_all hne hall]
      exact commitJob_candid (fun _ h => h.1) fun cur x hold hcur hlater hx =>
        hold.mark_completed hcur hlater hx

end

/-! ## The endpoints -/

theorem loadOwnedStep_sameJobs (stepId n : String) (e : ℤ) :
    Acts SameJobs (loadOwnedStep stepId n e) := by
  unfold loadOwnedStep getStepOr404 validateWorkerOwnership validateEpochOr409
  refine Acts.bind (Acts.bind (Acts.read fun _ => rfl) fun o => ?_) fun x => Acts.bind ?_ fun _ =>
    Acts.bind ?_ fun _ _ _ => trivial
  · cases o with
    | none => trivial
    | some x => exact fun _ _ => trivial
  · split_ifs
    exacts [trivial, fun _ _ => trivial]
  · split
    exacts [trivial, fun _ _ => trivial]

theorem persistStepUpdateOr409_sameJobs (step : Step) (n : String) (from_ : List StepStatus)
    (values : List StepValue) (u : Bool) :
    Acts SameJobs (persistStepUpdateOr409 step n from_ values u) := by
  refine Acts.bind (Acts.atomic fun db => ?_) fun rowcount => ?_
  · unfold updateSteps SameJobs
    split_ifs <;> rfl
  · split_ifs
    · trivial
    · refine Acts.bind (Acts.read fun _ => rfl) fun o => ?_
      cases o with
      | none => trivial
      | some refreshed => exact fun _ _ => trivial

/-- **A lifecycle endpoint keeps the rows truthful**, if its mark does. -/
theorem endpoint_candid (app : App) {n k : String} {e : ℤ} {target : StepStatus} {from_ : List StepStatus}
    {values : StepStatus → List StepValue} {mark : Step → Handler Unit} {A : Step → Prop}
    (hfence : r.call.fence? = some (k, e)) (hn : r.headers.xMediaorchardNodeId = some n)
    (hw : ∀ db x, Fenced r x → x.status ∈ from_ → StepWrite db r x (x.setValues (values target)))
    (hb : ∀ n b, r.call ≠ .heartbeatNode n b) (hA : ∀ x : Step, A (x.setValues (values target)))
    (hkept : ∀ x x', RowKept x x' → A x → A x')
    (hmark : ∀ x, Candid (fun db => HoldsRow k (fun y => A y ∧ y.jobId = x.jobId) db ∧ db.Truthful)
      (mark x) fun _ _ => True) :
    Candid Db.Truthful (endpoint n k e target from_ values mark) fun _ _ => True := by
  have hload : Triple app r (fun _ => True) (loadOwnedStep k n e) fun x _ => Loaded k n e x :=
    loadOwnedStep_spec k n e
  refine Spec.bind ((hload.candid (loadOwnedStep_sameJobs k n e)).pre fun db hdb => ⟨trivial, hdb⟩)
    fun step => Spec.assume (fun _ h => h.1) fun hl => ?_
  unfold transitionOr409
  cases htr : transitionStep step.status target with
  | error => trivial
  | ok next =>
    obtain rfl := (transitionStep_ok.1 htr).2
    have hpersist : Triple app r (fun _ => True)
        (persistStepUpdateOr409 step n from_ (values next) false) fun updated =>
          HoldsRow step.id fun x => A x ∧ x.jobId = updated.jobId := by
      refine persistStepUpdateOr409_spec hb (fun db x hg => ?_) (fun x _ => hA x) hkept
      obtain ⟨hx, hs, -⟩ := fenced_of_guard hl hfence hn hg
      exact hw db x hx hs
    show Candid _ ((persistStepUpdateOr409 step n from_ (values next) false).bind _) _
    refine Spec.bind ((hpersist.candid (persistStepUpdateOr409_sameJobs _ _ _ _ _)).pre
      fun db hdb => ⟨trivial, hdb.2⟩) fun updated => ?_
    rw [hl.id]
    exact Spec.bind (hmark updated) fun _ _ _ => trivial

/-- **Every action of every handler keeps the rows truthful.** -/
theorem handle_candid (app : App) (r : Request) :
    Candid Db.Truthful (app.handle r) fun _ _ => True := by
  have hother : (∀ db old new, ¬ JobWrite db r old new) →
      Candid Db.Truthful (app.handle r) fun _ _ => True := fun hno =>
    ((handle_spec app r).weaken (fun _ _ ht => ht.rely) fun _ _ he =>
      he.tells fun _ _ hw => absurd hw (hno _ _ _)).pre fun _ _ => trivial
  have hnode : ∀ {α : Type} {p : String → Handler α},
      (∀ n, r.headers.xMediaorchardNodeId = some n → Candid Db.Truthful (p n) fun _ _ => True) →
      Candid Db.Truthful (requireWorkerNodeId r.headers >>= p) fun _ _ => True := by
    intro α p hp
    unfold requireWorkerNodeId
    split
    · trivial
    · rename_i n hn
      split_ifs
      exacts [trivial, hp n hn]
  have hret : ∀ {p : Handler Step}, Candid Db.Truthful p (fun _ _ => True) →
      Candid Db.Truthful (p >>= fun x => pure (.step x)) (fun _ _ => True : Response → Db → Prop) :=
    fun hp => Spec.bind hp fun _ _ _ => trivial
  have hauth : ∀ {p : Handler Response}, Candid Db.Truthful p (fun _ _ => True) →
      Candid Db.Truthful (requireWorkerAuth app r.headers >>= fun _ => p) fun _ _ => True := by
    intro p hp
    rcases requireWorkerAuth_cases app r.headers with h | ⟨e, h⟩ <;> rw [h]
    exacts [hp, trivial]
  cases hc : r.call with
  | startStep stepId body =>
    unfold App.handle
    rw [hc]
    refine hauth (hnode fun n hn => hret ?_)
    rw [startStep_eq]
    exact endpoint_candid app (by rw [hc]; rfl) hn (fun db x hx hs => .start hc hx (by simpa using hs))
      (by simp [hc]) (fun _ => rfl) (fun x x' hk => hk.started) fun x => markJobRunning_candid _ _
  | completeStep stepId body =>
    unfold App.handle
    rw [hc]
    refine hauth (hnode fun n hn => hret ?_)
    rw [completeStep_eq]
    exact endpoint_candid app (A := fun x => x.status = .completed) (by rw [hc]; rfl) hn
      (fun db x hx hs => .complete hc hx (by simpa using hs)) (by simp [hc]) (fun _ => rfl)
      (fun x x' hk h => hk.final (Or.inl h) ▸ h) fun x => markJobAfterStepCompletion_candid _ _
  | failStep stepId body =>
    unfold App.handle
    rw [hc]
    refine hauth (hnode fun n hn => hret ?_)
    rw [failStep_eq]
    exact endpoint_candid app
      (A := fun x => x.status = .failed ∧ x.errorMessage = some body.errorMessage)
      (by rw [hc]; rfl) hn (fun db x hx hs => .fail hc hx (by simpa using hs)) (by simp [hc])
      (fun _ => ⟨rfl, rfl⟩) (fun x x' hk h => hk.final (Or.inr h.1) ▸ h) fun x =>
        markJobFailed_candid _ _ _
  | _ =>
    refine hother fun db old new hw => ?_
    cases hw with
    | running hr | completed hr | partly hr | failed hr => rw [hc] at hr; cases hr

/-! ## Runs -/

/-- The Controller keeps the rows truthful, whatever is interleaved. -/
theorem candid (app : App) : app.controller.Sound Tells (fun _ => Tells) Db.Truthful where
  stable := stable_truthful
  handler := handle_candid app
  guar _ _ _ _ h := h
  env stepId db _ := tells_recoverStep stepId db

variable {db₀ : Db} {tr : List (Trans app.controller)} {c : Conf Db HttpError Response Request}

/-- The rows of a run, at its end and since each of its moments. -/
theorem App.Run.truthful (h : app.Run db₀ tr c) (h₀ : db₀.Truthful) :
    c.db.Truthful ∧ ∀ t ∈ tr, JobsLater t.pre.db c.db := by
  have hself : ∀ db, Tells db db := fun db => ⟨.refl db, id, fun _ => .of_eq rfl⟩
  induction h with
  | init => exact ⟨h₀, fun _ h => absurd h List.not_mem_nil⟩
  | @step tr c h a ih =>
    have hstep : Tells c.db (app.controller.step c a).db :=
      (candid app).rely (t := ⟨c, a⟩) (fun db _ => hself db) ih.1
        ((candid app).cases h₀ (h.step a) List.mem_cons_self)
    refine ⟨hstep.truthful ih.1, fun t ht => ?_⟩
    rcases List.mem_cons.1 ht with rfl | ht
    · exact hstep.later ih.1
    · exact (ih.2 t ht).trans (hstep.later ih.1)

/-- **What the row of a job says is true**, at every moment of every interleaving: its
    columns agree with each other and with the row of its step; and it takes back neither
    that the job has begun nor its error nor that it has ended. -/
theorem job_rows_truthful (h₀ : db₀.Truthful) (h : app.Run db₀ tr c) :
    (∀ x ∈ c.db.steps.rows, ∀ j ∈ c.db.jobs.rows, x.jobId = j.id → Shows j x) ∧
      ∀ t ∈ tr, ∀ j ∈ t.pre.db.jobs.rows, ∃ j' ∈ c.db.jobs.rows, j'.id = j.id ∧ j.Later j' := by
  obtain ⟨htrue, hlater⟩ := h.truthful h₀
  refine ⟨htrue.shows, fun t ht j hj => ?_⟩
  obtain ⟨j', hj', hl⟩ := hlater t ht j.id j (Table.get?_of_mem hj)
  exact ⟨j', Table.mem_of_get? hj', Table.key_of_get? hj', hl⟩

/-- The job whose step has failed on `mac`. -/
theorem job_rows_truthful_sample :
    let run := sampleRun (oneByOne 0 (sampleAssigned ++
      [sampleRequest 3 (.claimNext ⟨"mac"⟩), sampleRequest 4 (.startStep "step_a" ⟨1⟩),
        sampleRequest 5 (.failStep "step_a" { assignmentEpoch := 1, errorMessage := "no audio" })]))
    (run.2.db.jobs.get? "job_a").map (fun j => (j.status, j.progress, j.errorMessage)) =
        some (.failed, 1, some "no audio") ∧
      ∀ x ∈ run.2.db.steps.rows, ∀ j ∈ run.2.db.jobs.rows, x.jobId = j.id → Shows j x :=
  ⟨by decide +kernel, (job_rows_truthful Db.empty_truthful (sampleRun_run _)).1⟩

end MediaOrchard
