/-
  Runs of the Controller, seen from one row.

  * `Db.Initial`: the databases runs start from;
  * `RowStep t k`, `JobStep t k`: what a transition does to the row of step `k`
    and of job `k`, with the guard it passed;
  * `assigns`, `recovers`, `currentAssignment`: the history of a step, read off
    the transitions of a run;
  * `App.Run.rowStep`, `App.Run.jobStep`: every transition of a run is such a step;
  * `App.Run.row_inv`: the induction rule for one row of a run.
-/
import MediaOrchard.Proof.Handlers

namespace MediaOrchard

open Keyed Interleave

/-- Runs of the Controller from a database without handlers in flight. -/
abbrev App.Run (app : App) (db₀ : Db) (tr : List (Trans app.controller))
    (c : Conf Db HttpError Response Request) : Prop :=
  app.controller.Run ⟨db₀, []⟩ tr c

/-! ## Initial databases -/

/-- A step that has not been assigned yet. -/
structure Step.Initial (x : Step) : Prop where
  status : x.status = .pending ∨ x.status = .queued
  node : x.assignedNodeId = none
  assignedAt : x.assignedAt = none
  claimedAt : x.claimedAt = none
  startedAt : x.startedAt = none
  epoch : x.assignmentEpoch = 0

/-- A job none of whose steps has been started. -/
structure Job.Initial (j : Job) : Prop where
  status : j.status = .queued
  completedAt : j.completedAt = none

/-- Jobs, and steps of these jobs, that nothing has happened to; nodes and plans
    are arbitrary. -/
structure Db.Initial (db : Db) : Prop where
  steps : ∀ x ∈ db.steps.rows, x.Initial
  jobs : ∀ j ∈ db.jobs.rows, j.Initial
  owned : ∀ x ∈ db.steps.rows, (db.jobs.get? x.jobId).isSome

theorem Db.empty_initial : Db.empty.Initial where
  steps _ h := absurd h List.not_mem_nil
  jobs _ h := absurd h List.not_mem_nil
  owned _ h := absurd h List.not_mem_nil

theorem newRows_job_initial (app : App) (env : Ambient) (body : JobCreateRequest)
    (inputFile outputDir : String) : (newRows app env body inputFile outputDir).1.Initial :=
  ⟨rfl, rfl⟩

theorem newRows_step_initial (app : App) (env : Ambient) (body : JobCreateRequest)
    (inputFile outputDir : String) : (newRows app env body inputFile outputDir).2.2.Initial :=
  ⟨Or.inr rfl, rfl, rfl, rfl, rfl, rfl⟩

variable {app : App}

/-! ## The history of a step -/

/-- The row of step `k` before a transition. -/
abbrev rowBefore (t : Trans app.controller) (k : String) : Option Step := t.pre.db.steps.get? k

/-- The row of step `k` after a transition. -/
abbrev rowAfter (t : Trans app.controller) (k : String) : Option Step := t.post.db.steps.get? k

/-- The transition moves step `k` from queued to assigned. -/
def assigns (t : Trans app.controller) (k : String) : Bool :=
  (rowBefore t k).any (·.status = .queued) && (rowAfter t k).any (·.status = .assigned)

/-- The transition is a recovery of step `k`, found assigned or running. -/
def recovers (t : Trans app.controller) (k : String) : Bool :=
  match t.act with
  | .env k' => k' = k && (rowBefore t k).any fun x => x.status = .assigned ∨ x.status = .running
  | _ => false

/-- The assignment of step `k` in force after the transitions `tr`, latest
    first: the node and the epoch of the last one, unless recovered since. -/
def currentAssignment (k : String) : List (Trans app.controller) → Option (String × ℤ)
  | [] => none
  | t :: tr =>
    if recovers t k then none
    else if assigns t k then
      (rowAfter t k).bind fun x => x.assignedNodeId.map fun n => (n, x.assignmentEpoch)
    else currentAssignment k tr

/-! ## Transitions of a run -/

/-- What a transition does to the row of step `k`. -/
inductive RowStep (t : Trans app.controller) (k : String) : Prop
  | same (h : rowAfter t k = rowBefore t k) (hr : recovers t k = false)
  | write {i r x x'} (hby : t.By i r) (hx : rowBefore t k = some x)
      (hx' : rowAfter t k = some x') (hw : StepWrite t.pre.db r x x')
  | recover {x} (hact : t.act = .env k) (hx : rowBefore t k = some x)
      (hs : x.status = .assigned ∨ x.status = .running) (hx' : rowAfter t k = some x.recovered)
  | create {i r body inputFile outputDir} (hby : t.By i r) (hc : r.call = .createJob body)
      (hx : rowBefore t k = none)
      (hx' : rowAfter t k = some (newRows app r.ambient body inputFile outputDir).2.2)

/-- What a transition does to the row of job `k`. -/
inductive JobStep (t : Trans app.controller) (k : String) : Prop
  | same (h : t.post.db.jobs.get? k = t.pre.db.jobs.get? k)
  | write {i r old new cur} (hby : t.By i r) (hw : JobWrite t.pre.db r old new) (hk : old.id = k)
      (hj : t.pre.db.jobs.get? k = some cur)
      (hj' : t.post.db.jobs.get? k = some (Job.flush old new cur))
      (hs : t.post.db.steps = t.pre.db.steps)
  | create {i r body inputFile outputDir} (hby : t.By i r) (hc : r.call = .createJob body)
      (hj : t.pre.db.jobs.get? k = none)
      (hj' : t.post.db.jobs.get? k = some (newRows app r.ambient body inputFile outputDir).1)

theorem recovers_of_by {t : Trans app.controller} {i : ℕ} {r : Request} (h : t.By i r)
    (k : String) : recovers t k = false := by
  unfold recovers
  rw [h.1]

theorem recovers_iff {t : Trans app.controller} {k : String} : recovers t k ↔
    t.act = .env k ∧ ∃ x, rowBefore t k = some x ∧
      (x.status = .assigned ∨ x.status = .running) := by
  unfold recovers
  cases h : t.act with
  | arrive | act => simp
  | env k' =>
    simp only [Bool.and_eq_true, decide_eq_true_eq, Option.any_eq_true, Act.env.injEq]

/-- A recovery rewrites the row it is applied to. -/
theorem rowStep_env {t : Trans app.controller} {e : String} (ht : t.act = .env e) (k : String) :
    RowStep t k := by
  have hpost : rowAfter t k =
      (rowBefore t k).map fun r => if r.id = e then recoverRow r else r := by
    show (Service.step app.controller t.pre t.act).db.steps.get? k = _
    rw [ht]
    exact Table.get?_update _ fun r => by split_ifs <;> simp [recoverRow_id]
  cases hx : rowBefore t k with
  | none =>
    rw [hx, Option.map_none] at hpost
    refine .same (hpost.trans hx.symm) ?_
    by_contra hr
    obtain ⟨-, x, hx', -⟩ := recovers_iff.1 (Bool.of_not_eq_false hr)
    simp [hx] at hx'
  | some x =>
    rw [hx, Option.map_some] at hpost
    have hid : x.id = k := Table.key_of_get? hx
    by_cases hs : e = k ∧ (x.status = .assigned ∨ x.status = .running)
    · obtain ⟨rfl, hs⟩ := hs
      refine .recover ht hx hs ?_
      rw [hpost, if_pos hid, recoverRow_eq, if_pos hs]
    · have hfix : (if x.id = e then recoverRow x else x) = x := by
        split_ifs with he
        · rw [recoverRow_eq, if_neg fun h => hs ⟨he ▸ hid, h⟩]
        · rfl
      refine .same (by rw [hpost, hfix, hx]) ?_
      by_contra hr
      obtain ⟨ha, y, hy, hsy⟩ := recovers_iff.1 (Bool.of_not_eq_false hr)
      rw [ht] at ha
      cases ha
      cases hx.symm.trans hy
      exact hs ⟨rfl, hsy⟩

/-- An in-place change of the step rows, seen from row `k`. -/
theorem rowStep_update {t : Trans app.controller} {i : ℕ} {r : Request} (hby : t.By i r)
    (f : Step → Step) (hf) (hs : t.post.db.steps = t.pre.db.steps.update f hf)
    (h : ∀ x ∈ t.pre.db.steps.rows, f x = x ∨ StepWrite t.pre.db r x (f x)) (k : String) :
    RowStep t k := by
  have hpost : rowAfter t k = (rowBefore t k).map f := by
    rw [rowAfter, hs, Table.get?_update]
  cases hx : rowBefore t k with
  | none => exact .same (by rw [hpost, hx]; rfl) (recovers_of_by hby k)
  | some x =>
    rw [hx, Option.map_some] at hpost
    rcases h x (Table.mem_of_get? hx) with he | hw
    · exact .same (by rw [hpost, he, hx]) (recovers_of_by hby k)
    · exact .write hby hx hpost hw

/-- The effect of a request, seen from the rows of step `k`. -/
theorem Effect.rowStep {t : Trans app.controller} {i : ℕ} {r : Request} (hby : t.By i r)
    (h : Effect app r t.pre.db t.post.db) (k : String) : RowStep t k := by
  have hrec := recovers_of_by hby k
  generalize hd : t.post.db = db' at h
  cases h with
  | read | register | job => exact .same (by rw [rowAfter, hd]) hrec
  | steps f hf h | heartbeat f hf _ _ _ h => exact rowStep_update hby f hf (by rw [hd]) h k
  | @create body inputFile outputDir jobs plans steps hc hj hs =>
    have hpost := Table.get?_insert (k := k) hs
    split_ifs at hpost with hk
    · exact .create hby hc (hk ▸ (Table.insert?_eq_some hs).1) (by rw [rowAfter, hd]; exact hpost)
    · exact .same (by rw [rowAfter, hd]; exact hpost) hrec

/-- **A transition of a run, seen from a step.** -/
theorem App.Run.rowStep {db₀ : Db} {tr : List (Trans app.controller)}
    {c : Conf Db HttpError Response Request} (h : app.Run db₀ tr c) {t : Trans app.controller}
    (ht : t ∈ tr) (k : String) : RowStep t k := by
  cases ha : t.act with
  | env e => exact rowStep_env ha k
  | arrive r =>
    refine .same ?_ (by unfold recovers; rw [ha])
    show (Service.step app.controller t.pre t.act).db.steps.get? k = _
    rw [ha]
    rfl
  | act i =>
    rcases (sound app).cases trivial h ht with he | ⟨i, r, hby, he⟩ | ⟨e, he, -⟩
    · exact .same (by rw [rowAfter, he]) (by unfold recovers; rw [ha])
    · exact he.rowStep hby k
    · rw [ha] at he; cases he

/-- **A transition of a run, seen from a job.** -/
theorem App.Run.jobStep {db₀ : Db} {tr : List (Trans app.controller)}
    {c : Conf Db HttpError Response Request} (h : app.Run db₀ tr c) {t : Trans app.controller}
    (ht : t ∈ tr) (k : String) : JobStep t k := by
  rcases (sound app).cases trivial h ht with he | ⟨i, r, hby, he⟩ | ⟨e, -, he⟩
  · exact .same (by rw [he])
  · generalize hd : t.post.db = db' at he
    cases he with
    | read | steps | heartbeat | register => exact .same (by rw [hd])
    | create hc hj hs =>
      have hpost := Table.get?_insert (k := k) hj
      split_ifs at hpost with hk
      · exact .create hby hc (hk ▸ (Table.insert?_eq_some hj).1) (by rw [hd]; exact hpost)
      · exact .same (by rw [hd]; exact hpost)
    | @job old new hw =>
      cases hj : t.pre.db.jobs.get? k with
      | none => exact .same (by rw [hd]; simp [hj])
      | some cur =>
        have hid : cur.id = k := Table.key_of_get? hj
        by_cases hk : old.id = k
        · exact .write hby hw hk hj (by rw [hd]; simp [hj, hid, hk]) (by rw [hd])
        · exact .same (by rw [hd]; simp [hj, hid, Ne.symm hk])
  · exact .same (by rw [he]; rfl)

/-- **Every transition of a run keeps what the handlers rely on.** -/
theorem App.Run.rely {db₀ : Db} {tr : List (Trans app.controller)}
    {c : Conf Db HttpError Response Request} (h : app.Run db₀ tr c) {t : Trans app.controller}
    (ht : t ∈ tr) : Rely t.pre.db t.post.db :=
  (sound app).rely (fun db _ => .refl db) trivial ((sound app).cases trivial h ht)

theorem App.Run.node_kept {db₀ : Db} {tr : List (Trans app.controller)}
    {c : Conf Db HttpError Response Request} (h : app.Run db₀ tr c) {t : Trans app.controller}
    (ht : t ∈ tr) {n : String} (hn : (t.pre.db.nodes.get? n).isSome) :
    (t.post.db.nodes.get? n).isSome := by
  rcases (sound app).cases trivial h ht with he | ⟨i, r, -, he⟩ | ⟨e, -, he⟩
  · rw [he]; exact hn
  · exact he.node_kept hn
  · rw [he]; exact hn

/-- **Induction over a run, seen from one row**: what holds of the row at the
    start and is kept by every `RowStep` holds of the row and its history. -/
theorem App.Run.row_inv {k : String} {P : List (Trans app.controller) → Option Step → Prop}
    {db₀ : Db} {tr : List (Trans app.controller)} {c : Conf Db HttpError Response Request}
    (h : app.Run db₀ tr c) (h₀ : P [] (db₀.steps.get? k))
    (hs : ∀ tr t, RowStep t k → P tr (rowBefore t k) → P (t :: tr) (rowAfter t k)) :
    P tr (c.db.steps.get? k) := by
  have key : ∀ tr' c', app.Run db₀ tr' c' → P tr' (c'.db.steps.get? k) := by
    intro tr' c' h'
    induction h' with
    | init => exact h₀
    | step h' a ih => exact hs _ _ (App.Run.rowStep (h'.step a) (List.mem_cons_self ..) k) ih
  exact key tr c h

/-! ## A sample deployment -/

/-- The digest of `key`; other keys are not used. -/
def sampleSha256 : Sha256 where
  hexdigest s :=
    if s = "key" then "2c70e12b7a0646f92279f427c7b38e7334d8e5389cff167a1dc30e73f826b683" else ""
  isAscii_hexdigest s := by split_ifs <;> decide +kernel

/-- A Controller whose API key is `key`, with the shared root `/media`. -/
def sampleApp : App where
  sha256Hex := sampleSha256
  apiKeyHash := "sha256:2c70e12b7a0646f92279f427c7b38e7334d8e5389cff167a1dc30e73f826b683"
  sharedRoot := ["media"]

/-- A file system without links, in which everything is a directory. -/
def sampleFs : FileSystem where
  resolve s := ((s.toList.splitOn '/').map String.ofList).filter (· ≠ "")
  pathExists _ := true
  isDir _ := true

/-- A request of node `mac`, made at second `now`. -/
def sampleRequest (now : ℤ) (call : Call) : Request where
  call := call
  headers := { authorization := some "Bearer key", xMediaorchardNodeId := some "mac" }
  ambient :=
    { clock := fun i => now * 1000000 + i, jobHex := "a", planHex := "a", stepHex := "a",
      clientHost := none, fs := sampleFs }

/-- A heartbeat of an idle node. -/
def sampleHeartbeat : NodeHeartbeatRequest where
  cpuPercent := 10
  memoryPercent := 20
  freeDiskGb := 100
  activeJobs := 0
  activeFfmpegJobs := 0
  activeWhisperJobs := 0
  thermalState := "normal"
  onBattery := false

/-- The requests that register `mac`, create a job and assign its step `step_a`
    to `mac` under epoch 1. -/
def sampleAssigned : List Request :=
  [sampleRequest 0 (.registerNode { nodeId := "mac", name := "Mac", sharedRoot := "/media" }),
    sampleRequest 1 (.createJob
      { goalType := "video_to_subtitle", inputFile := "/media/in.mp4", outputs := ["srt"] }),
    sampleRequest 2 (.heartbeatNode "mac" sampleHeartbeat)]

/-- The requests that claim, start and complete `step_a`. -/
def sampleCompleted : List Request :=
  [sampleRequest 3 (.claimNext ⟨"mac"⟩), sampleRequest 4 (.startStep "step_a" ⟨1⟩),
    sampleRequest 5 (.completeStep "step_a" { assignmentEpoch := 1 })]

/-- The actions, latest first, that handle requests one after another, the first
    being the `n`-th of the run. -/
def oneByOne (n : ℕ) (rs : List Request) : List (Act Request String) :=
  (rs.zipIdx n).reverse.flatMap fun r => List.replicate 7 (.act r.2) ++ [.arrive r.1]

/-- A run of the sample Controller from the empty database. -/
def sampleRun (acts : List (Act Request String)) :
    List (Trans sampleApp.controller) × Conf Db HttpError Response Request :=
  Service.trace (S := sampleApp.controller) ⟨Db.empty, []⟩ acts

theorem sampleRun_run (acts : List (Act Request String)) :
    sampleApp.Run Db.empty (sampleRun acts).1 (sampleRun acts).2 := Service.run_trace _ acts

/-- The handlers of a sample run are those of its requests. -/
theorem sampleRun_requests {rs : List Request} {q : Request × Prog Db HttpError Response}
    (hq : q ∈ (sampleRun (oneByOne 0 rs)).2.procs) : q.1 ∈ rs := by
  have harrived := Service.arrived_of_trace _ hq
  simp only [oneByOne, List.mem_flatMap, List.mem_reverse, List.mem_append, List.mem_replicate,
    List.mem_singleton] at harrived
  obtain ⟨r, hr, ⟨-, hact⟩ | harrive⟩ := harrived
  · cases hact
  · rw [Act.arrive.inj harrive]
    exact List.fst_mem_of_mem_zipIdx hr

/-- The database after requests handled one after another. -/
def sampleServe (db : Db) (rs : List Request) : Db :=
  rs.foldl (fun db r => ((sampleApp.handle r).exec db).2) db

theorem sampleServe_served {P : Db → Request → Prop} (db : Db) (rs : List Request)
    (hr : ∀ r ∈ rs, ∀ db, P db r) : sampleApp.controller.Served P db (sampleServe db rs) :=
  Service.Served.init.foldl rs hr

/-- The status code of an outcome. -/
def statusCode : Except HttpError Response → ℕ
  | .ok .noContent => 204
  | .ok _ => 200
  | .error e => e.status

/-- The status code of the answer to a request handled alone. -/
def sampleStatus (db : Db) (r : Request) : ℕ := statusCode ((sampleApp.handle r).exec db).1

/-- The node `mac`, registered, which takes one step of each class. -/
def sampleNode : Node where
  id := "mac"
  name := "Mac"
  sharedRoot := "/media"
  createdAt := 0
  updatedAt := 0

/-- A queued job. -/
def sampleJob : Job where
  id := "job_a"
  goalType := "video_to_subtitle"
  inputFile := "/media/in.mp4"
  outputDir := "/media/output/job_a"
  status := .queued
  createdAt := 0
  updatedAt := 0

/-- A queued step of `sampleJob`. -/
def sampleStep (toolName id : String) : Step where
  id := id
  jobId := "job_a"
  planId := "plan_a"
  stepType := "video_to_subtitle"
  toolName := toolName
  status := .queued

/-- The node and the job, with two queued steps. -/
def sampleQueue (toolName : String) : Db where
  nodes := ⟨[sampleNode], List.nodup_singleton _⟩
  jobs := ⟨[sampleJob], List.nodup_singleton _⟩
  plans := .empty
  steps := ⟨[sampleStep toolName "step_a", sampleStep toolName "step_b"], by
    simp [sampleStep]⟩

theorem sampleQueue_initial (toolName : String) : (sampleQueue toolName).Initial where
  steps x hx := by
    simp only [sampleQueue, List.mem_cons, List.not_mem_nil, or_false] at hx
    rcases hx with rfl | rfl <;> exact ⟨Or.inr rfl, rfl, rfl, rfl, rfl, rfl⟩
  jobs j hj := by
    simp only [sampleQueue, List.mem_singleton] at hj
    subst hj
    exact ⟨rfl, rfl⟩
  owned x hx := by
    simp only [sampleQueue, List.mem_cons, List.not_mem_nil, or_false] at hx
    rcases hx with rfl | rfl <;> rfl

end MediaOrchard
