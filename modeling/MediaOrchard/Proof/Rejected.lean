/-
  Rejected requests.

  * `handle_afterWrite`: once it has written, a handler is bound to end with
    success or an internal error;
  * `handle_found`: as long as its step exists, a lifecycle request does not end
    in 404;
  * `rejected_unwritten`: in every run, a request answered with 204, 401, 403, 404,
    409 or 422 has changed nothing, and a lifecycle request is answered 404 only
    if its step was missing when its handler first looked.
-/
import MediaOrchard.Proof.Rows
import MediaOrchard.Proof.Exec

namespace MediaOrchard

open Keyed Interleave Prog

variable {app : App} {r : Request} {α β : Type}

/-- The status codes of rejections. -/
def Rejected (code : ℕ) : Prop := code ∈ [204, 401, 403, 404, 409, 422]

instance (code : ℕ) : Decidable (Rejected code) := inferInstanceAs (Decidable (code ∈ _))

/-- The outcome is a value, or an internal error. -/
def Completes (o : Except HttpError α) : Prop := ∀ e, o = .error e → e = internalError

theorem completes_ok (a : α) : Completes (.ok a) := by
  intro e he
  cases he

theorem completes_internal : Completes (.error internalError : Except HttpError α) := by
  intro e he
  cases he
  rfl

/-! ## Functions that complete -/

/-- The function completes whatever it sees. -/
abbrev AlwaysCompletes (p : Handler α) : Prop := EndsIn (fun _ => True) Completes p

theorem AlwaysCompletes.bind {p : Handler α} {g : α → Handler β} (hp : AlwaysCompletes p)
    (hg : ∀ a, AlwaysCompletes (g a)) : AlwaysCompletes (p.bind g) := by
  refine EndsIn.bind hp (fun e he => ?_) fun a _ => hg a
  rw [he e rfl]
  exact completes_internal

theorem AlwaysCompletes.read (g : Db → β) : AlwaysCompletes (read g) :=
  fun _ _ => Or.inr (completes_ok _)

theorem AlwaysCompletes.atomic (f : Db → β × Db) : AlwaysCompletes (atomic f) :=
  fun _ _ => Or.inr (completes_ok _)

theorem refreshNode_completes (nodeId : String) : AlwaysCompletes (refreshNode nodeId) := by
  refine .bind (.read _) fun o => ?_
  cases o with
  | none => exact completes_internal
  | some node => exact completes_ok node

theorem markJobRunning_completes (clock : ℕ → Instant) (jobId : String) :
    AlwaysCompletes (markJobRunning clock jobId) := by
  refine .bind (.read _) fun o => ?_
  cases o with
  | none => exact completes_ok ()
  | some job =>
    dsimp only
    split_ifs
    · exact .atomic _
    · exact completes_ok ()

theorem markJobAfterStepCompletion_completes (clock : ℕ → Instant) (jobId : String) :
    AlwaysCompletes (markJobAfterStepCompletion clock jobId) := by
  refine .bind (.read _) fun o => ?_
  cases o with
  | none => exact completes_ok ()
  | some job => exact .bind (.read _) fun steps => .atomic _

theorem markJobFailed_completes (clock : ℕ → Instant) (jobId errorMessage : String) :
    AlwaysCompletes (markJobFailed clock jobId errorMessage) := by
  refine .bind (.read _) fun o => ?_
  cases o with
  | none => exact completes_ok ()
  | some job => exact .atomic _

/-! ## Functions that only read -/

theorem readOnly_auth (h : Headers) : ReadOnly (requireWorkerAuth app h) := by
  rcases requireWorkerAuth_answers app h with hr | hr | ⟨hr, -⟩ <;> rw [hr] <;> trivial

theorem readOnly_nodeId (h : Headers) : ReadOnly (requireWorkerNodeId h) := by
  unfold requireWorkerNodeId
  split
  · trivial
  · split_ifs <;> trivial

theorem readOnly_valid (fields : List String) : ReadOnly (requireValid fields) := by
  unfold requireValid
  split_ifs <;> trivial

theorem readOnly_transition (step : Step) (target : StepStatus) :
    ReadOnly (transitionOr409 step target) := by
  unfold transitionOr409
  split <;> trivial

theorem readOnly_getNode (nodeId : String) : ReadOnly (getNode nodeId) := by
  refine (ReadOnly.read _).bind fun o => ?_
  cases o <;> trivial

theorem readOnly_getJob (jobId : String) : ReadOnly (getJob jobId) := by
  refine (ReadOnly.read _).bind fun o => ?_
  cases o <;> trivial

theorem readOnly_loadOwned (stepId n : String) (e : ℤ) : ReadOnly (loadOwnedStep stepId n e) := by
  refine ReadOnly.bind ?_ fun step => ReadOnly.bind ?_ fun _ => ReadOnly.bind ?_ fun _ => trivial
  · refine (ReadOnly.read _).bind fun o => ?_
    cases o <;> trivial
  · unfold validateWorkerOwnership
    split_ifs <;> trivial
  · unfold validateEpochOr409
    split <;> trivial

/-! ## The guarded update -/

/-- A guarded `UPDATE` that changes the database has matched its row. -/
theorem updateSteps_changed {guard : Step → Bool} {values : List StepValue} {db : Db} (sid : String)
    (hid : ∀ x, guard x → x.id = sid) (h : (updateSteps guard values db).2 ≠ db) :
    (updateSteps guard values db).1 = 1 ∧
      HoldsRow sid (fun _ => True) (updateSteps guard values db).2 := by
  by_cases hc : db.steps.count guard = 1
  · obtain ⟨hn, x, -, -, hx'⟩ := updateSteps_one values hid hc
    exact ⟨hn, _, hx', trivial⟩
  · refine absurd ?_ h
    simp only [updateSteps, hc, if_false]

/-- Steps stay: a row once there is found by every later read. -/
theorem stable_holds (sid : String) : Stable Rely (HoldsRow sid fun _ => True) :=
  stable_row fun _ _ _ h => h

theorem readStep_found (sid : String) : EndsIn (HoldsRow sid fun _ => True)
    (fun o => ∃ x, o = .ok (some x)) (read fun db => db.steps.get? sid : Handler (Option Step)) := by
  rintro db ⟨x, hx, -⟩
  exact Or.inr ⟨x, congrArg Except.ok hx⟩

/-- Once it has written, the function completes. -/
abbrev Commits (p : Handler α) : Prop := AfterWrite (Bound Rely Completes) p

theorem Commits.of_completes {p : Handler α} (h : AlwaysCompletes p) : Commits p := .of_endsIn h

theorem Commits.seq {p : Handler α} {g : α → Handler β} (hp : Commits p)
    (hg : ∀ a, AlwaysCompletes (g a)) : Commits (p.bind g) := by
  refine AfterWrite.seq hp (fun e he => ?_) (fun a _ => hg a) fun a => AfterWrite.of_endsIn (hg a)
  rw [he e rfl]
  exact completes_internal

theorem Commits.read {p : Handler α} {g : α → Handler β} (hp : ReadOnly p)
    (hg : ∀ a, Commits (g a)) : Commits (p.bind g) := AfterWrite.bind hp.afterWrite hg

/-- The 404 that follows the commit of a lifecycle update is not reached. -/
theorem persistStepUpdateOr409_commits (step : Step) (n : String) (from_ : List StepStatus)
    (values : List StepValue) (u : Bool) :
    Commits (persistStepUpdateOr409 step n from_ values u) := by
  refine AfterWrite.bind (AfterWrite.atomic fun db hne => ?_) fun rowcount => ?_
  · obtain ⟨hn, hrow⟩ := updateSteps_changed step.id (fun _ => persistGuard_id) hne
    refine ⟨HoldsRow step.id fun _ => True, stable_holds _, hrow, ?_⟩
    rw [hn, Prog.ret_bind, if_neg (not_not.2 rfl)]
    refine EndsIn.bind (readStep_found step.id) ?_ fun o ho => ?_
    · rintro e ⟨x, hx⟩
      cases hx
    · obtain ⟨x, hx⟩ := ho
      cases hx
      exact completes_ok x
  · refine ReadOnly.afterWrite ?_
    split_ifs
    · trivial
    · refine (ReadOnly.read _).bind fun o => ?_
      cases o <;> trivial

/-! ## The endpoints -/

theorem registerNode_commits (env : Ambient) (body : NodeRegisterRequest) :
    Commits (registerNode app env body) := by
  unfold registerNode
  dsimp only
  split_ifs
  · trivial
  refine .read (ReadOnly.read _) fun o => Commits.of_completes ?_
  cases o with
  | some node => exact .bind (.atomic _) fun _ => refreshNode_completes _
  | none =>
    refine .bind (.atomic _) fun inserted => ?_
    split_ifs
    · exact completes_internal
    · exact refreshNode_completes _

theorem heartbeatNode_commits (env : Ambient) (nodeId : String) (body : NodeHeartbeatRequest) :
    Commits (heartbeatNode app env nodeId body) := by
  refine .read (readOnly_valid _) fun _ => .read (readOnly_getNode _) fun node => Commits.of_completes ?_
  refine .bind (.atomic _) fun o => ?_
  cases o with
  | error e => exact completes_internal
  | ok u => exact refreshNode_completes nodeId

theorem createJob_commits (env : Ambient) (body : JobCreateRequest) :
    Commits (createJob app env body) := by
  unfold createJob
  split_ifs
  · trivial
  split
  · trivial
  dsimp only
  split
  · trivial
  refine Commits.of_completes (.bind (.atomic _) fun inserted => ?_)
  split_ifs
  · exact completes_internal
  · refine .bind (.read _) fun o => ?_
    cases o with
    | none => exact completes_internal
    | some job => exact completes_ok job

theorem startStep_commits (env : Ambient) (n stepId : String) (body : StepEpochRequest) :
    Commits (startStep env n stepId body) := by
  refine .read (readOnly_loadOwned _ _ _) fun step => .read (readOnly_transition _ _) fun next => ?_
  refine (persistStepUpdateOr409_commits _ _ _ _ _).seq fun updated => ?_
  exact (markJobRunning_completes _ _).bind fun _ => completes_ok updated

theorem progressStep_commits (n stepId : String) (body : StepProgressRequest) :
    Commits (progressStep n stepId body) :=
  .read (readOnly_valid _) fun _ => .read (readOnly_loadOwned _ _ _) fun _ =>
    persistStepUpdateOr409_commits _ _ _ _ _

theorem completeStep_commits (env : Ambient) (n stepId : String) (body : StepCompleteRequest) :
    Commits (completeStep env n stepId body) := by
  refine .read (readOnly_loadOwned _ _ _) fun step => .read (readOnly_transition _ _) fun next => ?_
  refine (persistStepUpdateOr409_commits _ _ _ _ _).seq fun updated => ?_
  exact (markJobAfterStepCompletion_completes _ _).bind fun _ => completes_ok updated

theorem failStep_commits (env : Ambient) (n stepId : String) (body : StepFailRequest) :
    Commits (failStep env n stepId body) := by
  refine .read (readOnly_loadOwned _ _ _) fun step => .read (readOnly_transition _ _) fun next => ?_
  refine (persistStepUpdateOr409_commits _ _ _ _ _).seq fun updated => ?_
  exact (markJobFailed_completes _ _ _).bind fun _ => completes_ok updated

theorem claimStep_commits (env : Ambient) (n stepId : String) (body : StepEpochRequest) :
    Commits (claimStep env n stepId body) := by
  refine .read (readOnly_loadOwned _ _ _) fun step => ?_
  split_ifs
  · trivial
  · exact persistStepUpdateOr409_commits _ _ _ _ _

/-- Once it has claimed a step, `claim_next` answers with it: the 204 that
    follows the commit is not reached. -/
theorem claimNext_afterWrite (env : Ambient) (n : String) (body : StepClaimNextRequest) :
    AfterWrite (Bound Rely fun o => ∃ x, o = .ok (some x)) (claimNext env n body) := by
  unfold claimNext
  split_ifs
  · trivial
  refine AfterWrite.bind (ReadOnly.read _).afterWrite fun o => ?_
  cases o with
  | none => trivial
  | some step =>
    refine AfterWrite.bind (AfterWrite.atomic fun db hne => ?_) fun rowcount => ?_
    · obtain ⟨hn, hrow⟩ := updateSteps_changed step.id (fun x hx => by
        simp only [claimNextGuard, decide_eq_true_eq] at hx
        exact hx.1) hne
      refine ⟨HoldsRow step.id fun _ => True, stable_holds _, hrow, ?_⟩
      rw [hn]
      exact readStep_found step.id
    · split_ifs
      · trivial
      · exact (ReadOnly.read _).afterWrite

/-! ## Answers -/

/-- The answer is no rejection. -/
abbrev NotRejected (o : Except HttpError Response) : Prop := ¬ Rejected (statusCode o)

theorem notRejected_internal : NotRejected (.error internalError) := by decide

/-- Once it has written, an endpoint that completes answers with its value. -/
theorem Commits.answer {p : Handler α} (h : Commits p) {f : α → Response}
    (hf : ∀ a, statusCode (.ok (f a)) = 200) :
    AfterWrite (Bound Rely NotRejected) (p.bind fun a => .ret (f a)) := by
  have hok : ∀ a, NotRejected (.ok (f a)) := by
    intro a
    rw [NotRejected, hf]
    decide
  refine AfterWrite.seq h (fun e he => ?_) (fun a _ => hok a) fun a => trivial
  rw [he e rfl]
  exact notRejected_internal

/-- An endpoint of a worker, which answers with a step. -/
theorem Commits.worker {h : Headers} {p : String → Handler Step} (hp : ∀ n, Commits (p n)) :
    AfterWrite (Bound Rely NotRejected)
      ((requireWorkerNodeId h).bind fun n => (p n).bind fun x => .ret (.step x)) :=
  AfterWrite.bind (readOnly_nodeId h).afterWrite fun n => (hp n).answer fun _ => rfl

/-- **Once it has written, a handler is bound not to reject its request.** -/
theorem handle_afterWrite (app : App) (r : Request) :
    AfterWrite (Bound Rely NotRejected) (app.handle r) := by
  refine AfterWrite.bind (readOnly_auth _).afterWrite fun _ => ?_
  cases r.call with
  | listNodes | listJobs => exact Commits.answer (ReadOnly.read _).afterWrite fun _ => rfl
  | getNode => exact Commits.answer (readOnly_getNode _).afterWrite fun _ => rfl
  | getJob => exact Commits.answer (readOnly_getJob _).afterWrite fun _ => rfl
  | registerNode => exact (registerNode_commits _ _).answer fun _ => rfl
  | heartbeatNode => exact (heartbeatNode_commits _ _ _).answer fun _ => rfl
  | createJob => exact (createJob_commits _ _).answer fun _ => rfl
  | startStep k => exact Commits.worker fun n => startStep_commits _ n k _
  | progressStep k => exact Commits.worker fun n => progressStep_commits n k _
  | completeStep k => exact Commits.worker fun n => completeStep_commits _ n k _
  | failStep k => exact Commits.worker fun n => failStep_commits _ n k _
  | claimStep k => exact Commits.worker fun n => claimStep_commits _ n k _
  | claimNext =>
    refine AfterWrite.bind (readOnly_nodeId _).afterWrite fun n => ?_
    refine AfterWrite.seq (claimNext_afterWrite _ _ _) ?_ (fun o ho => ?_) fun o => ?_
    · rintro e ⟨x, hx⟩
      cases hx
    · obtain ⟨x, hx⟩ := ho
      cases hx
      exact (by decide : ¬ Rejected 200)
    · cases o <;> trivial

/-! ## A lifecycle request whose step exists -/

/-- The outcome is not 404. -/
def Found (o : Except HttpError α) : Prop := ∀ e, o = .error e → e.status ≠ 404

theorem found_ok (a : α) : Found (.ok a) := by
  intro e he
  cases he

theorem found_error {e : HttpError} (h : e.status ≠ 404) : Found (.error e : Except HttpError α) := by
  intro e' he
  cases he
  exact h

variable {k : String}

/-- As long as step `k` exists, the function does not end in 404. -/
abbrev Finds (k : String) (p : Handler α) : Prop := EndsIn (HoldsRow k fun _ => True) Found p

theorem Finds.bind {p : Handler α} {g : α → Handler β} (hp : Finds k p)
    (hg : ∀ a, Finds k (g a)) : Finds k (p.bind g) :=
  EndsIn.bind hp (fun _ he => found_error (he _ rfl)) fun a _ => hg a

theorem Finds.of_completes {p : Handler α} (h : AlwaysCompletes p) : Finds k p := by
  refine EndsIn.anti (Before.imp h fun o ho e he => ?_) fun _ _ => trivial
  rw [ho e he]
  decide

theorem requireWorkerAuth_finds (h : Headers) : Finds k (requireWorkerAuth app h) := by
  rcases requireWorkerAuth_answers app h with hr | hr | ⟨hr, -⟩ <;> rw [hr]
  exacts [found_ok (), found_error (by decide), found_error (by decide)]

theorem requireWorkerNodeId_finds (h : Headers) : Finds k (requireWorkerNodeId h) := by
  unfold requireWorkerNodeId
  split
  · exact found_error (by decide)
  · split_ifs
    exacts [found_error (by decide), found_ok _]

theorem requireValid_finds (fields : List String) : Finds k (requireValid fields) := by
  unfold requireValid
  split_ifs
  exacts [found_ok (), found_error (show 422 ≠ 404 by decide)]

theorem transitionOr409_finds (step : Step) (target : StepStatus) :
    Finds k (transitionOr409 step target) := by
  unfold transitionOr409
  split
  exacts [found_error (show 409 ≠ 404 by decide), found_ok _]

theorem validateWorkerOwnership_finds (step : Step) (n : String) :
    Finds k (validateWorkerOwnership step n) := by
  unfold validateWorkerOwnership
  split_ifs
  exacts [found_error (by decide), found_ok ()]

theorem validateEpochOr409_finds (step : Step) (e : ℤ) : Finds k (validateEpochOr409 step e) := by
  unfold validateEpochOr409
  split
  exacts [found_error (show 409 ≠ 404 by decide), found_ok ()]

/-- The step a lifecycle endpoint goes on with is the one its request names. -/
theorem loadOwnedStep_finds (n : String) (e : ℤ) {g : Step → Handler β}
    (hg : ∀ x, x.id = k → Finds k (g x)) : Finds k ((loadOwnedStep k n e).bind g) := by
  -- the row is found, and the checks on it answer 403 and 409
  have hload : EndsIn (HoldsRow k fun _ => True) (fun o => Found o ∧ ∀ x, o = .ok x → x.id = k)
      (loadOwnedStep k n e) := by
    rintro db ⟨x, hx, -⟩
    refine Or.inr ?_
    dsimp only
    rw [hx]
    show EndsIn _ _ ((validateWorkerOwnership x n).bind fun _ =>
      (validateEpochOr409 x e).bind fun _ => .ret x)
    refine EndsIn.bind (validateWorkerOwnership_finds x n) ?_ fun _ _ => ?_
    · exact fun e he => ⟨found_error (he e rfl), fun _ h => by cases h⟩
    refine EndsIn.bind (validateEpochOr409_finds x e) ?_ fun _ _ => ?_
    · exact fun e he => ⟨found_error (he e rfl), fun _ h => by cases h⟩
    refine ⟨found_ok x, fun y hy => ?_⟩
    cases hy
    exact Table.key_of_get? hx
  exact EndsIn.bind hload (fun e he => found_error (he.1 e rfl)) fun x hx => hg x (hx.2 x rfl)

theorem persistStepUpdateOr409_finds {step : Step} (hid : step.id = k) (n : String)
    (from_ : List StepStatus) (values : List StepValue) (u : Bool) :
    Finds k (persistStepUpdateOr409 step n from_ values u) := by
  subst hid
  refine Finds.bind (fun db _ => Or.inr (found_ok _)) fun rowcount => ?_
  split_ifs
  · exact found_error (by decide)
  refine EndsIn.bind (readStep_found step.id) ?_ fun o ho => ?_
  · rintro e ⟨x, hx⟩
    cases hx
  · obtain ⟨x, hx⟩ := ho
    cases hx
    exact found_ok x

theorem startStep_finds (env : Ambient) (n : String) (body : StepEpochRequest) :
    Finds k (startStep env n k body) := by
  refine loadOwnedStep_finds n _ fun step hid => .bind (transitionOr409_finds _ _) fun next => ?_
  refine .bind (persistStepUpdateOr409_finds hid _ _ _ _) fun updated => ?_
  exact .bind (.of_completes (markJobRunning_completes _ _)) fun _ => found_ok updated

theorem progressStep_finds (n : String) (body : StepProgressRequest) :
    Finds k (progressStep n k body) :=
  .bind (requireValid_finds _) fun _ => loadOwnedStep_finds n _ fun _ hid =>
    persistStepUpdateOr409_finds hid _ _ _ _

theorem completeStep_finds (env : Ambient) (n : String) (body : StepCompleteRequest) :
    Finds k (completeStep env n k body) := by
  refine loadOwnedStep_finds n _ fun step hid => .bind (transitionOr409_finds _ _) fun next => ?_
  refine .bind (persistStepUpdateOr409_finds hid _ _ _ _) fun updated => ?_
  exact .bind (.of_completes (markJobAfterStepCompletion_completes _ _)) fun _ => found_ok updated

theorem failStep_finds (env : Ambient) (n : String) (body : StepFailRequest) :
    Finds k (failStep env n k body) := by
  refine loadOwnedStep_finds n _ fun step hid => .bind (transitionOr409_finds _ _) fun next => ?_
  refine .bind (persistStepUpdateOr409_finds hid _ _ _ _) fun updated => ?_
  exact .bind (.of_completes (markJobFailed_completes _ _ _)) fun _ => found_ok updated

theorem claimStep_finds (env : Ambient) (n : String) (body : StepEpochRequest) :
    Finds k (claimStep env n k body) := by
  refine loadOwnedStep_finds n _ fun step hid => ?_
  split_ifs
  · exact found_error (by decide)
  · exact persistStepUpdateOr409_finds hid _ _ _ _

/-- An endpoint of a worker, which answers with a step. -/
theorem Finds.worker {h : Headers} {p : String → Handler Step} (hp : ∀ n, Finds k (p n)) :
    Finds k ((requireWorkerNodeId h).bind fun n => (p n).bind fun x => .ret (Response.step x)) :=
  .bind (requireWorkerNodeId_finds h) fun n => .bind (hp n) fun _ => found_ok _

/-- **As long as its step exists, a lifecycle request does not end in 404.** -/
theorem handle_found {e : ℤ} (h : r.call.fence? = some (k, e)) : Finds k (app.handle r) := by
  refine .bind (requireWorkerAuth_finds _) fun _ => ?_
  cases hc : r.call with
  | startStep _ body => cases hc ▸ h; exact .worker fun n => startStep_finds _ n body
  | progressStep _ body => cases hc ▸ h; exact .worker fun n => progressStep_finds n body
  | completeStep _ body => cases hc ▸ h; exact .worker fun n => completeStep_finds _ n body
  | failStep _ body => cases hc ▸ h; exact .worker fun n => failStep_finds _ n body
  | claimStep _ body => cases hc ▸ h; exact .worker fun n => claimStep_finds _ n body
  | _ => rw [hc] at h; cases h

/-! ## Runs -/

/-- The step that a lifecycle request names is stored. -/
def StepStored (r : Request) (db : Db) : Prop :=
  ∀ k e, r.call.fence? = some (k, e) → HoldsRow k (fun _ => True) db

theorem stable_stepStored (r : Request) : Stable Rely (StepStored r) :=
  fun db db' h hR k e hf => stable_holds k db db' (h k e hf) hR

/-- A lifecycle request does not end in 404 as long as its step is stored. -/
theorem handle_stepStored (app : App) (r : Request) : EndsIn (StepStored r)
    (fun o => ∀ k e, r.call.fence? = some (k, e) → Found o) (app.handle r) := by
  cases hf : r.call.fence? with
  | none => exact Before.of_forall (fun o k e h => by cases h) _
  | some f =>
    obtain ⟨k, e⟩ := f
    refine EndsIn.anti (Before.imp (handle_found hf) fun o ho k' e' h => ?_) fun db h => h k e hf
    exact ho

theorem statusCode_found {o : Except HttpError Response} (h : Found o) : statusCode o ≠ 404 := by
  cases o with
  | ok a => cases a <;> simp [statusCode]
  | error e => exact h e rfl

theorem EndsIn.of_done {A : Db → Prop} {fin : Except HttpError α → Prop}
    {o : Except HttpError α} (h : EndsIn A fin (Service.done o)) : fin o := by
  cases o <;> exact h

theorem Bound.of_done {fin : Except HttpError α → Prop} {o : Except HttpError α} {db : Db}
    (h : Bound Rely fin (Service.done o) db) : fin o := by
  obtain ⟨A, -, -, h⟩ := h
  exact EndsIn.of_done h

/-- **Rejected requests change nothing.**  In every run, the actions of a handler
    that answered with a rejection have left the database as it was; and a lifecycle
    request answered 404 found no step when its handler first looked. -/
theorem rejected_unwritten {db₀ : Db} {tr : List (Trans app.controller)}
    {c : Conf Db HttpError Response Request} (h : app.Run db₀ tr c) {i : ℕ} {r : Request}
    {o : Except HttpError Response} (hi : c.procs[i]? = some (r, Service.done o))
    (ho : Rejected (statusCode o)) :
    (∀ t ∈ tr, t.By i r → t.post.db = t.pre.db) ∧
      ∀ k e, r.call.fence? = some (k, e) → statusCode o = 404 →
        ∃ tr₂ t tr₁, tr = tr₂ ++ t :: tr₁ ∧ t.By i r ∧ (∀ t' ∈ tr₁, ¬ t'.By i r) ∧
          t.pre.db.steps.get? k = none := by
  constructor
  · rcases h.afterWrite (sound app) (fun db _ => .refl db) trivial (handle_afterWrite app) i r _ hi
      with ⟨hu, -⟩ | hb
    · exact hu
    · exact absurd ho (Bound.of_done hb)
  · intro k e hf h404
    rcases h.first (sound app) (fun db _ => .refl db) trivial stable_stepStored
      (handle_stepStored app) i r _ hi with ⟨hend, -⟩ | ⟨tr₂, t, tr₁, ht, hby, hnone, hno⟩
    · exact absurd h404 (statusCode_found (EndsIn.of_done hend k e hf))
    · refine ⟨tr₂, t, tr₁, ht, hby, hnone, ?_⟩
      by_contra hne
      obtain ⟨x, hx⟩ := Option.ne_none_iff_exists'.1 hne
      refine hno fun k' e' hf' => ?_
      cases hf.symm.trans hf'
      exact ⟨x, hx, trivial⟩

/-- `step_a` is assigned under epoch 1. -/
def sampleFenced : Db := sampleServe .empty sampleAssigned

/-- A start of `step_a` under an epoch that is not its own. -/
def sampleStale : Request := sampleRequest 3 (.startStep "step_a" ⟨0⟩)

/-- A start of a step that does not exist. -/
def sampleMissing : Request := sampleRequest 4 (.startStep "step_b" ⟨1⟩)

/-- The stale start is answered 409 and changes nothing; the other is answered 404
    and found no step. -/
theorem rejected_unwritten_sample :
    (sampleStatus sampleFenced sampleStale = 409 ∧ ∃ tr c, sampleApp.Run sampleFenced tr c ∧
      c.procs = [(sampleStale, Service.done ((sampleApp.handle sampleStale).exec sampleFenced).1)] ∧
      ∀ t ∈ tr, t.By 0 sampleStale → t.post.db = t.pre.db) ∧
    sampleStatus sampleFenced sampleMissing = 404 ∧ ∃ tr c, sampleApp.Run sampleFenced tr c ∧
      ∃ t ∈ tr, t.By 0 sampleMissing ∧ t.pre.db.steps.get? "step_b" = none := by
  have h409 : sampleStatus sampleFenced sampleStale = 409 := by decide +kernel
  have h404 : sampleStatus sampleFenced sampleMissing = 404 := by decide +kernel
  obtain ⟨tr, c, hrun, -, hc⟩ := Service.run_exec (S := sampleApp.controller) ⟨sampleFenced, []⟩
    sampleStale
  obtain ⟨tr', c', hrun', -, hc'⟩ := Service.run_exec (S := sampleApp.controller) ⟨sampleFenced, []⟩
    sampleMissing
  refine ⟨⟨h409, tr, c, hrun, hc, ?_⟩, h404, tr', c', hrun', ?_⟩
  · refine (rejected_unwritten hrun (i := 0) (r := sampleStale) (by rw [hc]; rfl) ?_).1
    show Rejected (sampleStatus sampleFenced sampleStale)
    rw [h409]
    decide
  · obtain ⟨tr₂, t, tr₁, rfl, hby, -, hno⟩ := (rejected_unwritten hrun' (i := 0)
      (r := sampleMissing) (by rw [hc']; rfl) (by
        show Rejected (sampleStatus sampleFenced sampleMissing)
        rw [h404]
        decide)).2 "step_b" 1 rfl h404
    exact ⟨t, by simp, hby, hno⟩

end MediaOrchard
