/-
  The handlers meet their specification: every action of a request is an
  `Effect` of it (`sound`).

  One triple per function of the model.  A function that reads passes on what
  stays true of what it saw; a function that writes needs the guard of its
  statement only.
-/
import MediaOrchard.Proof.Effect
import Mathlib.Algebra.Field.Rat

namespace MediaOrchard

open Keyed Interleave Prog

/-- `p`, started under `P`, performs effects of `r` and returns under `Q`. -/
abbrev Triple {α : Type} (app : App) (r : Request) (P : Db → Prop) (p : Handler α)
    (Q : α → Db → Prop) : Prop :=
  Spec Rely (Effect app r) Q p P

/-- Step `sid` exists and its row satisfies `A`. -/
def HoldsRow (sid : String) (A : Step → Prop) (db : Db) : Prop :=
  ∃ x, db.steps.get? sid = some x ∧ A x

theorem stable_row {sid : String} {A : Step → Prop} (hA : ∀ x x', RowKept x x' → A x → A x') :
    Stable Rely (HoldsRow sid A) := by
  rintro db db' ⟨x, hx, ha⟩ hR
  obtain ⟨x', hx', hk⟩ := hR.row sid x hx
  exact ⟨x', hx', hA x x' hk ha⟩

/-- The steps of a job that exists are fixed, and completed ones stay so. -/
theorem stable_allCompleted (jobId : String) : Stable Rely fun db =>
    (db.jobs.get? jobId).isSome ∧ ∀ y ∈ db.steps.rows, y.jobId = jobId → y.status = .completed := by
  rintro db db' ⟨hj, h⟩ hR
  refine ⟨hR.job _ hj, fun y hy hyj => ?_⟩
  obtain ⟨x, hx⟩ := hR.fixed y.id y (Table.get?_of_mem hy) (hyj ▸ hj)
  obtain ⟨x', hx', hk⟩ := hR.row y.id x hx
  obtain rfl : x' = y := Option.some.inj (hx'.symm.trans (Table.get?_of_mem hy))
  have hc := h x (Table.mem_of_get? hx) (hk.job.symm.trans hyj)
  rw [hk.final (Or.inl hc), hc]

theorem stable_otherStep (jobId sid : String) : Stable Rely fun db =>
    ∃ y ∈ db.steps.rows, y.jobId = jobId ∧ y.id ≠ sid := by
  rintro db db' ⟨y, hy, hyj, hne⟩ hR
  obtain ⟨y', hy', hk⟩ := hR.row y.id y (Table.get?_of_mem hy)
  exact ⟨y', Table.mem_of_get? hy', hk.job.trans hyj, (Table.key_of_get? hy').trans_ne hne⟩

variable {app : App} {r : Request}

/-- A read whose result satisfies a pure fact. -/
theorem triple_read {β : Type} {g : Db → β} {P : Db → Prop} {Q : β → Prop} (hP : Stable Rely P)
    (h : ∀ db, P db → Q (g db)) : Triple app r P (read g) fun b db => P db ∧ Q b :=
  Spec.read (fun _ _ => .read) fun db hdb =>
    ⟨fun db' => P db' ∧ Q (g db), hP.and (Stable.const _), ⟨hdb, h db hdb⟩, fun _ h => h⟩

theorem triple_ret {α : Type} {P : Db → Prop} {Q : α → Db → Prop} {a : α}
    (h : ∀ db, P db → Q a db) : Triple app r P (.ret a) Q := h

/-! ## Dependencies -/

/-- The dependency lets a request in, answers 401, or raises as the stored hash is not
    ASCII. -/
theorem requireWorkerAuth_answers (app : App) (h : Headers) :
    requireWorkerAuth app h = .ret () ∨
      requireWorkerAuth app h = .throw ⟨401, "invalid worker api key"⟩ ∨
      (requireWorkerAuth app h = .throw internalError ∧ isAscii app.apiKeyHash = false) := by
  rcases requireWorkerAuth_eq app h with ⟨-, hr⟩ | ⟨-, hr⟩ | ⟨e, hv, hr⟩
  · exact Or.inl hr
  · exact Or.inr (Or.inl hr)
  · refine Or.inr (Or.inr ⟨hr, Bool.eq_false_iff.2 fun hascii => ?_⟩)
    rw [verifyApiKey_ascii hascii] at hv
    cases hv

theorem requireWorkerAuth_spec (P : Db → Prop) (h : Headers) :
    Triple app r P (requireWorkerAuth app h) fun _ => P := by
  rcases requireWorkerAuth_answers app h with hr | hr | ⟨hr, -⟩ <;> rw [hr]
  exacts [fun _ h => h, trivial, trivial]

theorem requireWorkerNodeId_spec (P : Db → Prop) (h : Headers) :
    Triple app r P (requireWorkerNodeId h) fun n db => P db ∧ h.xMediaorchardNodeId = some n := by
  unfold requireWorkerNodeId
  split
  · trivial
  · rename_i nodeId hn
    split_ifs
    exacts [trivial, fun _ h => ⟨h, hn⟩]

theorem requireValid_spec (P : Db → Prop) (fields : List String) :
    Triple app r P (requireValid fields) fun _ => P := by
  unfold requireValid
  split_ifs
  exacts [fun _ h => h, trivial]

/-! ## Checks on a step -/

theorem getStepOr404_spec (stepId : String) :
    Triple app r (fun _ => True) (getStepOr404 stepId) fun x _ => x.id = stepId := by
  refine Spec.bind (triple_read (Q := fun o => ∀ x, o = some x → x.id = stepId)
    (Stable.const True) fun db _ x hx => Table.key_of_get? hx) fun o => ?_
  cases o with
  | none => trivial
  | some x => exact triple_ret fun _ h => h.2 x rfl

theorem validateWorkerOwnership_spec (P : Db → Prop) (step : Step) (n : String) :
    Triple app r P (validateWorkerOwnership step n) fun _ db =>
      P db ∧ step.assignedNodeId = some n := by
  unfold validateWorkerOwnership
  split_ifs with h
  · trivial
  · exact fun _ hP => ⟨hP, by simpa using h⟩

theorem validateEpochOr409_spec (P : Db → Prop) (step : Step) (e : ℤ) :
    Triple app r P (validateEpochOr409 step e) fun _ db => P db ∧ step.assignmentEpoch = e := by
  unfold validateEpochOr409
  cases h : validateAssignmentEpoch step e with
  | error => trivial
  | ok u => exact fun _ hP => ⟨hP, validateAssignmentEpoch_ok.1 h⟩

theorem transitionOr409_spec (P : Db → Prop) (step : Step) (target : StepStatus) :
    Triple app r P (transitionOr409 step target) fun next db => P db ∧ next = target := by
  unfold transitionOr409
  cases h : transitionStep step.status target with
  | error => trivial
  | ok next => exact fun _ hP => ⟨hP, (transitionStep_ok.1 h).2⟩

/-- The step a lifecycle endpoint goes on with is the one its request names. -/
structure Loaded (stepId n : String) (e : ℤ) (x : Step) : Prop where
  id : x.id = stepId
  owner : x.assignedNodeId = some n
  epoch : x.assignmentEpoch = e

theorem loadOwnedStep_spec (stepId n : String) (e : ℤ) :
    Triple app r (fun _ => True) (loadOwnedStep stepId n e) fun x _ => Loaded stepId n e x := by
  refine Spec.bind (getStepOr404_spec stepId) fun x => ?_
  refine Spec.bind (validateWorkerOwnership_spec _ x n) fun _ => ?_
  refine Spec.bind (validateEpochOr409_spec _ x e) fun _ => ?_
  exact triple_ret fun _ h => ⟨h.1.1, h.1.2, h.2⟩

/-! ## The guarded update -/

/-- A row count of one: the row of the guard's id is the one that was rewritten. -/
theorem updateSteps_one {guard : Step → Bool} (values : List StepValue) {sid : String} {db : Db}
    (hid : ∀ x, guard x → x.id = sid) (hc : db.steps.count guard = 1) :
    (updateSteps guard values db).1 = 1 ∧ ∃ x, db.steps.get? sid = some x ∧ guard x ∧
      (updateSteps guard values db).2.steps.get? sid = some (x.setValues values) := by
  have hone := hc
  rw [Table.count_of_key (k := sid) hid] at hone
  cases hx : db.steps.get? sid with
  | none => simp [hx] at hone
  | some x =>
    have hg : guard x := by
      by_contra hg
      simp [hx, hg] at hone
    exact ⟨by simp [updateSteps, hc], x, rfl, hg, by simp [updateSteps, hc, hx, hg]⟩

theorem persistGuard_id {step x : Step} {n : String} {from_ : List StepStatus} {u : Bool}
    (hg : persistGuard step n from_ u x) : x.id = step.id := by
  simp only [persistGuard, decide_eq_true_eq] at hg
  exact hg.1

/-- **`UPDATE … WHERE guard`**: if every row the guard admits may be written,
    the statement is an effect, and a row count of one leaves behind a row that
    satisfies `A`. -/
theorem updateSteps_spec {guard : Step → Bool} {values : List StepValue} (sid : String)
    {A : Step → Prop} (hid : ∀ x, guard x → x.id = sid) (hb : ∀ n b, r.call ≠ .heartbeatNode n b)
    (hw : ∀ db x, guard x → StepWrite db r x (x.setValues values))
    (hA : ∀ x, guard x → A (x.setValues values)) (hs : ∀ x x', RowKept x x' → A x → A x') :
    Triple app r (fun _ => True) (atomic (updateSteps guard values)) fun n db =>
      n = 1 → HoldsRow sid A db := by
  refine Spec.atomic (fun db _ => ?_) fun db _ => ?_
  · unfold updateSteps
    split_ifs with hc
    · refine .steps _ _ (fun x _ => ?_) hb
      split_ifs with hg
      exacts [Or.inr (hw db x hg), Or.inl rfl]
    · exact .read
  · by_cases hc : db.steps.count guard = 1
    · obtain ⟨-, x, -, hg, hx'⟩ := updateSteps_one values hid hc
      exact ⟨HoldsRow sid A, stable_row hs, ⟨_, hx', hA x hg⟩, fun _ h _ => h⟩
    · refine ⟨fun _ => True, Stable.const True, trivial, fun _ _ h => ?_⟩
      simp only [updateSteps, hc, if_false] at h

theorem persistStepUpdateOr409_spec {step : Step} {n : String} {from_ : List StepStatus}
    {values : List StepValue} {u : Bool} {A : Step → Prop}
    (hb : ∀ n b, r.call ≠ .heartbeatNode n b)
    (hw : ∀ db x, persistGuard step n from_ u x → StepWrite db r x (x.setValues values))
    (hA : ∀ x, persistGuard step n from_ u x → A (x.setValues values))
    (hs : ∀ x x', RowKept x x' → A x → A x') :
    Triple app r (fun _ => True) (persistStepUpdateOr409 step n from_ values u) fun updated =>
      HoldsRow step.id fun x => A x ∧ x.jobId = updated.jobId := by
  refine Spec.bind (updateSteps_spec step.id (fun _ => persistGuard_id) hb hw hA hs)
    fun rowcount => ?_
  split_ifs with h
  · trivial
  · rw [not_not] at h
    refine Spec.bind (Q := fun o db => ∀ u, o = some u →
      HoldsRow step.id (fun x => A x ∧ x.jobId = u.jobId) db) ?_ fun o => ?_
    · refine Spec.read (fun _ _ => .read) fun db hdb => ?_
      refine ⟨fun db' => ∀ u, db.steps.get? step.id = some u →
        HoldsRow step.id (fun x => A x ∧ x.jobId = u.jobId) db', ?_, ?_, fun _ h => h⟩
      · intro s s' hP hR u hu
        refine stable_row (fun x x' hk ha => ?_) s s' (hP u hu) hR
        exact ⟨hs x x' hk ha.1, hk.job.trans ha.2⟩
      · intro u hu
        obtain ⟨x, hx, ha⟩ := hdb h
        rw [hx] at hu; cases hu
        exact ⟨_, hx, ha, rfl⟩
    · cases o with
      | none => trivial
      | some u => exact triple_ret fun _ h => h u rfl

/-! ## The job row -/

/-- A read of the job, under an assertion about a step of that job. -/
theorem readJob_spec {P : Db → Prop} (hP : Stable Rely P) (jobId : String) :
    Triple app r P (read fun db => db.jobs.get? jobId) fun o db =>
      ∀ job, o = some job → P db ∧ (db.jobs.get? jobId).isSome ∧ job.id = jobId := by
  refine Spec.read (fun _ _ => .read) fun db hdb => ?_
  refine ⟨fun db' => ∀ job, db.jobs.get? jobId = some job →
    P db' ∧ (db'.jobs.get? jobId).isSome ∧ job.id = jobId, ?_, ?_, fun _ h => h⟩
  · intro s s' h hR job hj
    obtain ⟨h1, h2, h3⟩ := h job hj
    exact ⟨hP s s' h1 hR, hR.job _ h2, h3⟩
  · exact fun job hj => ⟨hdb, by simp [hj], Table.key_of_get? hj⟩

theorem commitJob_spec {P : Db → Prop} {old new : Job} (h : ∀ db, P db → JobWrite db r old new) :
    Triple app r P (commitJob old new) fun _ _ => True :=
  Spec.atomic (fun db hdb => .job (h db hdb)) fun _ _ =>
    ⟨fun _ => True, Stable.const True, trivial, fun _ _ => trivial⟩

theorem markJobRunning_spec {stepId jobId : String} {body : StepEpochRequest}
    (hr : r.call = .startStep stepId body) (clock : ℕ → Instant) :
    Triple app r (HoldsRow stepId fun x => x.startedAt.isSome ∧ x.jobId = jobId)
      (markJobRunning clock jobId) fun _ _ => True := by
  refine Spec.bind (readJob_spec (stable_row fun x x' hk h =>
    ⟨hk.started h.1, hk.job.trans h.2⟩) jobId) fun o => ?_
  cases o with
  | none => exact triple_ret fun _ _ => trivial
  | some job =>
    dsimp only
    split_ifs with hs
    · refine commitJob_spec fun db h => ?_
      obtain ⟨⟨x, hx, hst, hj⟩, -, hid⟩ := h job rfl
      exact .running hr hs hx (hj.trans hid.symm) hst
    · exact triple_ret fun _ _ => trivial

theorem markJobFailed_spec {stepId jobId : String} {body : StepFailRequest}
    (hr : r.call = .failStep stepId body) (clock : ℕ → Instant) :
    Triple app r (HoldsRow stepId fun x => x.status = .failed ∧ x.jobId = jobId)
      (markJobFailed clock jobId body.errorMessage) fun _ _ => True := by
  refine Spec.bind (readJob_spec (stable_row fun x x' hk h => ?_) jobId) fun o => ?_
  · rw [hk.final (Or.inr h.1)]; exact h
  · cases o with
    | none => exact triple_ret fun _ _ => trivial
    | some job =>
      refine commitJob_spec fun db h => ?_
      obtain ⟨⟨x, hx, hst, hj⟩, -, hid⟩ := h job rfl
      exact .failed hr hx (hj.trans hid.symm) hst

theorem pyRound_hundred : pyRound 100 2 = 100 := by decide +kernel

/-- All steps completed: the job object is completed, with progress 100. -/
theorem Job.afterStepCompletion_all {job : Job} {steps : List Step} {clock : ℕ → Instant}
    (hne : steps ≠ []) (h : ∀ x ∈ steps, x.status = .completed) :
    job.afterStepCompletion steps clock = { job with
      progress := 100, status := .completed, completedAt := some (clock 0),
      updatedAt := clock 1 } := by
  have hc : steps.countP (fun s => s.status = .completed) = steps.length :=
    List.countP_eq_length.2 fun x hx => by simpa using h x hx
  have hl : ((steps.length : ℕ) : ℚ) ≠ 0 := by simpa using hne
  unfold Job.afterStepCompletion
  rw [if_neg (by simpa using hne)]
  simp only [hc, if_true, div_self hl, one_mul, pyRound_hundred]

/-- Some step not completed: the job object is running. -/
theorem Job.afterStepCompletion_some (job : Job) {steps : List Step} (clock : ℕ → Instant)
    {y : Step} (hy : y ∈ steps) (h : y.status ≠ .completed) :
    ∃ p, job.afterStepCompletion steps clock =
      { job with progress := p, status := .running, updatedAt := clock 0 } := by
  have hc : steps.countP (fun s => s.status = .completed) ≠ steps.length := fun he =>
    h (by simpa using List.countP_eq_length.1 he y hy)
  refine ⟨pyRound ((steps.countP fun s => s.status = .completed : ℕ) / steps.length * 100) 2, ?_⟩
  unfold Job.afterStepCompletion
  rw [if_neg (by simpa using List.ne_nil_of_mem hy)]
  simp only [hc, if_false]

theorem markJobAfterStepCompletion_spec {stepId jobId : String} {body : StepCompleteRequest}
    (hr : r.call = .completeStep stepId body) (clock : ℕ → Instant) :
    Triple app r (HoldsRow stepId fun x => x.status = .completed ∧ x.jobId = jobId)
      (markJobAfterStepCompletion clock jobId) fun _ _ => True := by
  have hrow : Stable Rely (HoldsRow stepId fun x => x.status = .completed ∧ x.jobId = jobId) :=
    stable_row fun x x' hk h => by rw [hk.final (Or.inl h.1)]; exact h
  refine Spec.bind (readJob_spec hrow jobId) fun o => ?_
  cases o with
  | none => exact triple_ret fun _ _ => trivial
  | some job =>
    refine Spec.bind (Q := fun steps db => job.id = jobId ∧
      HoldsRow stepId (fun x => x.status = .completed ∧ x.jobId = jobId) db ∧
      ((∃ now now', job.afterStepCompletion steps clock = { job with
          progress := 100, status := .completed, completedAt := some now, updatedAt := now' } ∧
        ∀ y ∈ db.steps.rows, y.jobId = jobId → y.status = .completed) ∨
      ∃ p now, job.afterStepCompletion steps clock =
          { job with progress := p, status := .running, updatedAt := now } ∧
        ∃ y ∈ db.steps.rows, y.jobId = jobId ∧ y.id ≠ stepId)) ?_ fun steps => ?_
    · refine Spec.read (fun _ _ => .read) fun db hdb => ?_
      obtain ⟨hst, hjob, hid⟩ := hdb job rfl
      obtain ⟨x, hx, hxc, hxj⟩ := hst
      set steps := db.steps.select fun s => s.jobId = jobId with hsel
      have hmem : ∀ y, y ∈ steps ↔ y ∈ db.steps.rows ∧ y.jobId = jobId := by
        simp [hsel, Table.mem_select]
      by_cases hall : ∀ y ∈ steps, y.status = .completed
      · -- the snapshot is complete, and completed steps stay completed
        have hne : steps ≠ [] := List.ne_nil_of_mem ((hmem x).2 ⟨Table.mem_of_get? hx, hxj⟩)
        refine ⟨_, hrow.and (stable_allCompleted jobId), ⟨⟨x, hx, hxc, hxj⟩, hjob, fun y hy hyj =>
          hall y ((hmem y).2 ⟨hy, hyj⟩)⟩, fun db' h => ⟨hid, h.1, Or.inl ?_⟩⟩
        exact ⟨_, _, Job.afterStepCompletion_all hne hall, h.2.2⟩
      · -- the snapshot has a step that is not the one just completed
        simp only [not_forall] at hall
        obtain ⟨y, hy, hyc⟩ := hall
        obtain ⟨hyr, hyj⟩ := (hmem y).1 hy
        obtain ⟨p, hp⟩ := job.afterStepCompletion_some clock hy hyc
        have hne : y.id ≠ stepId := by
          rintro rfl
          obtain rfl : x = y := Option.some.inj (hx.symm.trans (Table.get?_of_mem hyr))
          exact hyc hxc
        exact ⟨_, hrow.and (stable_otherStep jobId stepId), ⟨⟨x, hx, hxc, hxj⟩, y, hyr, hyj, hne⟩,
          fun db' h => ⟨hid, h.1, Or.inr ⟨p, _, hp, h.2⟩⟩⟩
    · refine commitJob_spec fun db h => ?_
      obtain ⟨rfl, ⟨x, hx, hxc, hxj⟩, ⟨now, now', he, hall⟩ | ⟨p, now, he, y, hy, hyj, hne⟩⟩ := h
      · rw [he]; exact .completed hr hx hxj hxc hall
      · rw [he]; exact .partly hr hx hxj hxc hy hyj hne

/-! ## The lifecycle endpoints -/

/-- The rows a lifecycle `UPDATE` admits are the one its request names. -/
theorem fenced_of_guard {step x : Step} {n stepId : String} {e : ℤ} {from_ : List StepStatus}
    {u : Bool} (hl : Loaded stepId n e step) (hf : r.call.fence? = some (stepId, e))
    (hn : r.headers.xMediaorchardNodeId = some n) (hg : persistGuard step n from_ u x) :
    Fenced r x ∧ x.status ∈ from_ ∧ (u → x.claimedAt = none) := by
  simp only [persistGuard, decide_eq_true_eq] at hg
  obtain ⟨h1, h2, h3, h4, h5⟩ := hg
  refine ⟨⟨?_, ?_, ?_⟩, h4, h5⟩
  · rw [hf, h1, h2, hl.id, hl.epoch]
  · rw [h3, hn]
  · rw [h3]; rfl

theorem startStep_spec {stepId n : String} {body : StepEpochRequest}
    (hr : r.call = .startStep stepId body) (hn : r.headers.xMediaorchardNodeId = some n) :
    Triple app r (fun _ => True) (startStep r.ambient n stepId body) fun _ _ => True := by
  refine Spec.bind (loadOwnedStep_spec stepId n _) fun step => ?_
  refine Spec.bind (transitionOr409_spec _ step .running) fun next => ?_
  refine Spec.assume (fun _ h => h) fun ⟨hl, hnext⟩ =>
    Spec.pre (P := fun _ => True) ?_ fun _ _ => trivial
  subst hnext
  refine Spec.bind (persistStepUpdateOr409_spec (A := fun x => x.startedAt.isSome)
    (by simp [hr]) (fun db x hg => ?_) (fun x _ => rfl) fun x x' hk => hk.started) fun updated => ?_
  · obtain ⟨hx, hs, -⟩ := fenced_of_guard hl (by rw [hr]; rfl) hn hg
    exact .start hr hx (by simpa using hs)
  · rw [hl.id]
    exact Spec.bind (markJobRunning_spec hr _) fun _ => triple_ret fun _ _ => trivial

theorem progressStep_spec {stepId n : String} {body : StepProgressRequest}
    (hr : r.call = .progressStep stepId body) (hn : r.headers.xMediaorchardNodeId = some n) :
    Triple app r (fun _ => True) (progressStep n stepId body) fun _ _ => True := by
  refine Spec.bind (requireValid_spec _ _) fun _ => ?_
  refine Spec.bind (loadOwnedStep_spec stepId n _) fun step => ?_
  refine Spec.assume (fun _ h => h) fun hl => Spec.pre (P := fun _ => True) ?_ fun _ _ => trivial
  refine Spec.post (persistStepUpdateOr409_spec (A := fun _ => True) (by simp [hr])
    (fun db x hg => ?_) (fun x _ => trivial) fun _ _ _ => id) fun _ _ _ => trivial
  obtain ⟨hx, hs, -⟩ := fenced_of_guard hl (by rw [hr]; rfl) hn hg
  exact .progress hr hx (by simpa using hs)

theorem completeStep_spec {stepId n : String} {body : StepCompleteRequest}
    (hr : r.call = .completeStep stepId body) (hn : r.headers.xMediaorchardNodeId = some n) :
    Triple app r (fun _ => True) (completeStep r.ambient n stepId body) fun _ _ => True := by
  refine Spec.bind (loadOwnedStep_spec stepId n _) fun step => ?_
  refine Spec.bind (transitionOr409_spec _ step .completed) fun next => ?_
  refine Spec.assume (fun _ h => h) fun ⟨hl, hnext⟩ =>
    Spec.pre (P := fun _ => True) ?_ fun _ _ => trivial
  subst hnext
  refine Spec.bind (persistStepUpdateOr409_spec (A := fun x => x.status = .completed)
    (by simp [hr]) (fun db x hg => ?_) (fun x _ => rfl)
    fun x x' hk h => by rw [hk.final (Or.inl h)]; exact h) fun updated => ?_
  · obtain ⟨hx, hs, -⟩ := fenced_of_guard hl (by rw [hr]; rfl) hn hg
    exact .complete hr hx (by simpa using hs)
  · rw [hl.id]
    exact Spec.bind (markJobAfterStepCompletion_spec hr _) fun _ => triple_ret fun _ _ => trivial

theorem failStep_spec {stepId n : String} {body : StepFailRequest}
    (hr : r.call = .failStep stepId body) (hn : r.headers.xMediaorchardNodeId = some n) :
    Triple app r (fun _ => True) (failStep r.ambient n stepId body) fun _ _ => True := by
  refine Spec.bind (loadOwnedStep_spec stepId n _) fun step => ?_
  refine Spec.bind (transitionOr409_spec _ step .failed) fun next => ?_
  refine Spec.assume (fun _ h => h) fun ⟨hl, hnext⟩ =>
    Spec.pre (P := fun _ => True) ?_ fun _ _ => trivial
  subst hnext
  refine Spec.bind (persistStepUpdateOr409_spec (A := fun x => x.status = .failed)
    (by simp [hr]) (fun db x hg => ?_) (fun x _ => rfl)
    fun x x' hk h => by rw [hk.final (Or.inr h)]; exact h) fun updated => ?_
  · obtain ⟨hx, hs, -⟩ := fenced_of_guard hl (by rw [hr]; rfl) hn hg
    exact .fail hr hx (by simpa using hs)
  · rw [hl.id]
    exact Spec.bind (markJobFailed_spec hr _) fun _ => triple_ret fun _ _ => trivial

theorem claimStep_spec {stepId n : String} {body : StepEpochRequest}
    (hr : r.call = .claimStep stepId body) (hn : r.headers.xMediaorchardNodeId = some n) :
    Triple app r (fun _ => True) (claimStep r.ambient n stepId body) fun _ _ => True := by
  refine Spec.bind (loadOwnedStep_spec stepId n _) fun step => ?_
  refine Spec.assume (fun _ h => h) fun hl => Spec.pre (P := fun _ => True) ?_ fun _ _ => trivial
  split_ifs with h
  · trivial
  · refine Spec.post (persistStepUpdateOr409_spec (A := fun _ => True) (by simp [hr])
      (fun db x hg => ?_) (fun x _ => trivial) fun _ _ _ => id) fun _ _ _ => trivial
    obtain ⟨hx, hs, hu⟩ := fenced_of_guard hl (by rw [hr]; rfl) hn hg
    exact .claim hr hx (by simpa using hs) (hu rfl)

theorem claimNext_spec {n : String} {body : StepClaimNextRequest}
    (hr : r.call = .claimNext body) (hn : r.headers.xMediaorchardNodeId = some n) :
    Triple app r (fun _ => True) (claimNext r.ambient n body) fun _ _ => True := by
  unfold claimNext
  split_ifs with hne
  · trivial
  rw [not_not] at hne
  refine Spec.bind (triple_read (Q := fun _ => True) (Stable.const True) fun _ _ => trivial)
    fun o => ?_
  cases o with
  | none => exact triple_ret fun _ _ => trivial
  | some step =>
    refine Spec.bind (Spec.pre (updateSteps_spec step.id (A := fun _ => True) ?_
      (by simp [hr]) (fun db x hg => ?_) (fun _ _ => trivial) fun _ _ _ => id)
      fun _ _ => trivial) fun rowcount => ?_
    · intro x hx
      simp only [claimNextGuard, decide_eq_true_eq] at hx
      exact hx.1
    · simp only [claimNextGuard, decide_eq_true_eq] at hg
      obtain ⟨-, hs, ho, hc⟩ := hg
      exact .claimNext hr hs (hne ▸ ho) (hne ▸ hn) hc
    · split_ifs
      · exact triple_ret fun _ _ => trivial
      · exact Spec.read (fun _ _ => .read) fun _ _ =>
          ⟨fun _ => True, Stable.const True, trivial, fun _ _ => trivial⟩

/-! ## Nodes and jobs -/

theorem refreshNode_spec (nodeId : String) :
    Triple app r (fun _ => True) (refreshNode nodeId) fun _ _ => True := by
  refine Spec.bind (triple_read (Q := fun _ => True) (Stable.const True) fun _ _ => trivial)
    fun o => ?_
  cases o with
  | none => trivial
  | some x => exact triple_ret fun _ _ => trivial

theorem registerNode_spec {body : NodeRegisterRequest} (hr : r.call = .registerNode body) :
    Triple app r (fun _ => True) (registerNode app r.ambient body) fun _ _ => True := by
  unfold registerNode
  dsimp only
  split_ifs
  · trivial
  refine Spec.bind (triple_read (Q := fun _ => True) (Stable.const True) fun _ _ => trivial)
    fun o => ?_
  cases o with
  | none =>
    refine Spec.bind (Q := fun _ _ => True) (Spec.atomic (fun db _ => ?_) fun _ _ =>
      ⟨fun _ => True, Stable.const True, trivial, fun _ _ => trivial⟩) fun inserted => ?_
    · split
      · exact .read
      · rename_i nodes hi
        refine .register nodes hr fun k hk => ?_
        rw [Table.get?_insert hi]
        split_ifs
        exacts [rfl, hk]
    · split_ifs
      exacts [trivial, refreshNode_spec _]
  | some node =>
    refine Spec.bind (Q := fun _ _ => True) (Spec.atomic (fun db _ => ?_) fun _ _ =>
      ⟨fun _ => True, Stable.const True, trivial, fun _ _ => trivial⟩) fun _ => refreshNode_spec _
    exact .register _ hr fun k hk => by simpa using hk

theorem exists_of_forall₂ {α β : Type} {R : α → β → Prop} {as : List α} {bs : List β}
    (h : List.Forall₂ R as bs) {b : β} (hb : b ∈ bs) : ∃ a ∈ as, R a b := by
  induction h with
  | nil => cases hb
  | cons hab _ ih =>
    rcases List.mem_cons.1 hb with rfl | hb
    · exact ⟨_, List.mem_cons_self .., hab⟩
    · obtain ⟨a, ha, h⟩ := ih hb
      exact ⟨a, List.mem_cons_of_mem _ ha, h⟩

/-- The steps a pass assigns were queued, and their nodes are registered. -/
theorem flushStep_write {nodeId : String} {body : NodeHeartbeatRequest}
    (hr : r.call = .heartbeatNode nodeId body) {now : Instant} {own : Node} {db : Db}
    {steps : List Step} {nodes : List Node}
    (h : scheduleQueuedSteps app now own db = .ok (steps, nodes)) {x : Step}
    (hx : x ∈ db.steps.rows) : flushStep steps x = x ∨ StepWrite db r x (flushStep steps x) := by
  unfold scheduleQueuedSteps at h
  split_ifs at h with hq
  · cases h; exact Or.inl rfl
  have hmem : ∀ s ∈ queuedSteps db, s ∈ db.steps.rows ∧ s.status = .queued := by
    intro s hs
    simpa [queuedSteps, Table.mem_select] using hs
  have hf := scheduleLoop_steps (fun s hs => (hmem s hs).2) h
  unfold flushStep
  cases hfind : steps.find? fun s => s.id = x.id with
  | none => exact Or.inl rfl
  | some s' =>
    obtain ⟨s, hs, hrel⟩ := exists_of_forall₂ hf (List.mem_of_find?_eq_some hfind)
    have hid : s'.id = x.id := by simpa using List.find?_some hfind
    have hss : s'.id = s.id := by
      rcases hrel with rfl | ⟨n, -, rfl⟩ <;> rfl
    obtain rfl : s = x := Table.eq_of_key (hmem s hs).1 hx (hss.symm.trans hid)
    rcases hrel with rfl | ⟨n, hn, rfl⟩
    · exact Or.inl rfl
    · refine Or.inr (.assign hr (hmem s hs).2 ?_)
      obtain ⟨m, hm, rfl⟩ := List.mem_map.1 hn
      have : (if m.id = own.id then own else m).id = m.id := by
        split_ifs with he
        exacts [he.symm, rfl]
      rw [this, show m.id = HasKey.key m from rfl, Table.get?_of_mem hm]
      rfl

theorem heartbeatNode_spec {nodeId : String} {body : NodeHeartbeatRequest}
    (hr : r.call = .heartbeatNode nodeId body) :
    Triple app r (fun _ => True) (heartbeatNode app r.ambient nodeId body) fun _ _ => True := by
  refine Spec.bind (requireValid_spec _ _) fun _ => ?_
  refine Spec.bind (Q := fun _ _ => True) ?_ fun node => ?_
  · refine Spec.bind (triple_read (Q := fun _ => True) (Stable.const True) fun _ _ => trivial)
      fun o => ?_
    cases o with
    | none => trivial
    | some x => exact triple_ret fun _ _ => trivial
  refine Spec.bind (Q := fun _ _ => True) (Spec.atomic (fun db _ => ?_) fun _ _ =>
    ⟨fun _ => True, Stable.const True, trivial, fun _ _ => trivial⟩) fun o => ?_
  · unfold heartbeatCommit
    split
    · exact .read
    · rename_i steps nodes h
      exact .heartbeat _ _ _ _ hr fun x hx => flushStep_write hr h hx
  · cases o with
    | error => trivial
    | ok => exact refreshNode_spec _

theorem createJob_spec {body : JobCreateRequest} (hr : r.call = .createJob body) :
    Triple app r (fun _ => True) (createJob app r.ambient body) fun _ _ => True := by
  unfold createJob
  split_ifs
  · trivial
  split
  · trivial
  dsimp only
  split
  · trivial
  refine Spec.bind (Q := fun _ _ => True) (Spec.atomic (fun db _ => ?_) fun _ _ =>
    ⟨fun _ => True, Stable.const True, trivial, fun _ _ => trivial⟩) fun inserted => ?_
  · unfold insertJob
    split
    · rename_i hj _ hs
      exact .create hr hj hs
    · exact .read
  · split_ifs
    · trivial
    · refine Spec.bind (triple_read (Q := fun _ => True) (Stable.const True) fun _ _ => trivial)
        fun o => ?_
      cases o with
      | none => trivial
      | some x => exact triple_ret fun _ _ => trivial

/-! ## The Controller -/

/-- **Every action of a request is an effect of it.** -/
theorem handle_spec (app : App) (r : Request) :
    Triple app r (fun _ => True) (app.handle r) fun _ _ => True := by
  refine Spec.bind (requireWorkerAuth_spec _ _) fun _ => ?_
  have hread : ∀ {β : Type} (g : Db → β),
      Triple app r (fun _ => True) (read g) fun _ _ => True := fun g =>
    Spec.post (triple_read (Q := fun _ => True) (Stable.const True) fun _ _ => trivial)
      fun _ _ _ => trivial
  have hnode : ∀ {α : Type} {p : String → Handler α},
      (∀ n, r.headers.xMediaorchardNodeId = some n →
        Triple app r (fun _ => True) (p n) fun _ _ => True) →
      Triple app r (fun _ => True) (requireWorkerNodeId r.headers >>= p) fun _ _ => True := by
    intro α p hp
    refine Spec.bind (requireWorkerNodeId_spec _ _) fun n => ?_
    exact Spec.assume (fun _ h => h.2) fun hn => Spec.pre (hp n hn) fun _ _ => trivial
  have hret : ∀ {α β : Type} {p : Handler α} (f : α → β),
      Triple app r (fun _ => True) p (fun _ _ => True) →
      Triple app r (fun _ => True) (p >>= fun a => pure (f a)) fun _ _ => True :=
    fun f hp => Spec.bind hp fun _ => triple_ret fun _ _ => trivial
  cases hc : r.call with
  | listNodes | listJobs => exact hret _ (hread _)
  | getNode | getJob =>
    refine hret _ (Spec.bind (hread _) fun o => ?_)
    cases o with
    | none => trivial
    | some x => exact triple_ret fun _ _ => trivial
  | registerNode => exact hret _ (registerNode_spec hc)
  | heartbeatNode => exact hret _ (heartbeatNode_spec hc)
  | createJob => exact hret _ (createJob_spec hc)
  | claimNext =>
    refine hnode fun n hn => Spec.bind (claimNext_spec hc hn) fun o => ?_
    cases o <;> exact triple_ret fun _ _ => trivial
  | startStep => exact hnode fun n hn => hret _ (startStep_spec hc hn)
  | progressStep => exact hnode fun n hn => hret _ (progressStep_spec hc hn)
  | completeStep => exact hnode fun n hn => hret _ (completeStep_spec hc hn)
  | failStep => exact hnode fun n hn => hret _ (failStep_spec hc hn)
  | claimStep => exact hnode fun n hn => hret _ (claimStep_spec hc hn)

/-- **The Controller is a sound service.** -/
theorem sound (app : App) : app.controller.Sound Rely (Effect app) fun _ => True where
  stable := Stable.const True
  handler := handle_spec app
  guar _ _ _ _ h := h.rely
  env stepId db _ := rely_recoverStep stepId db

/-- What every effect of a request keeps, handling it alone keeps. -/
theorem exec_inv {J : Db → Prop} (hJ : ∀ db db', J db → Effect app r db db' → J db') {db : Db}
    (h : J db) : J ((app.handle r).exec db).2 :=
  Spec.exec_inv (handle_spec app r) hJ trivial h

theorem exec_rely (app : App) (r : Request) (db : Db) : Rely db ((app.handle r).exec db).2 :=
  exec_inv (J := Rely db) (fun _ _ h he => h.trans he.rely) (.refl db)

end MediaOrchard
