/-
  The records of the Controller over whole runs.

  * `Db.Grows`: every row stays in its place with its fixed columns, new rows come
    after the old ones; every action of a run is such a growth (`App.Run.grows`);
  * `Db.Linked`: the n-th job, the n-th plan and the n-th step belong together;
  * `Ordered`: the job is recorded as a request has ordered it;
  * `orders_kept`: orders are neither lost nor made twice nor changed.
-/
import MediaOrchard.Lib.Growth
import MediaOrchard.Proof.Limits
import MediaOrchard.Proof.Writes
import Mathlib.Data.List.Pairwise

namespace MediaOrchard

open Keyed Interleave Prog

variable {app : App} {r : Request}

/-! ## Growth -/

/-- A node after changes: it was made when it was made. -/
def Node.SameBirth (n n' : Node) : Prop := n'.createdAt = n.createdAt

theorem Node.SameBirth.refl (n : Node) : n.SameBirth n := rfl

/-- The database after changes: no row is gone, and its fixed columns are as they were. -/
structure Db.Grows (db db' : Db) : Prop where
  nodes : db.nodes.Grows Node.SameBirth db'.nodes
  jobs : db.jobs.Grows Job.SameOrder db'.jobs
  plans : db.plans.Grows Eq db'.plans
  steps : db.steps.Grows Step.SameWork db'.steps

theorem Db.Grows.refl (db : Db) : db.Grows db :=
  ⟨.refl .refl _, .refl .refl _, .refl .refl _, .refl .refl _⟩

theorem Db.Grows.trans {a b c : Db} (h : a.Grows b) (h' : b.Grows c) : a.Grows c where
  nodes := h.nodes.trans (fun _ _ _ h h' => Eq.trans h' h) h'.nodes
  jobs := h.jobs.trans (fun _ _ _ h h' => h.trans h') h'.jobs
  plans := h.plans.trans (fun _ _ _ h h' => h.trans h') h'.plans
  steps := h.steps.trans (fun _ _ _ h h' => h.trans h') h'.steps

theorem Node.sameBirth_flush {old new : Node} (h : old.SameBirth new) (cur : Node) :
    cur.SameBirth (Node.flush old new cur) := if_pos h

/-- The row of a node after the flushes of a heartbeat, whatever was written since it
    loaded its own. -/
theorem flushNode_pass {db : Db} {loaded own r : Node} {g : Node → Node}
    (hid : own.id = loaded.id) (hg : ∀ n : Node, n.SameButCounters (g n))
    (hr : r ∈ db.nodes.rows) : flushNode loaded own ((sessionNodes db own).map g) r =
      if r.id = loaded.id then Node.flush own (g own) (Node.flush loaded own r) else g r := by
  have hkey : ∀ r : Node, (g (if r.id = own.id then own else r)).id = r.id := fun r => by
    rw [(hg _).id_eq]
    split_ifs with h
    exacts [h.symm, rfl]
  unfold flushNode
  dsimp only
  split
  · rename_i n hfind
    obtain ⟨m, hm, rfl⟩ := List.mem_map.1 (List.mem_of_find?_eq_some hfind)
    obtain ⟨r', hr', rfl⟩ := List.mem_map.1 hm
    have hfound := List.find?_some hfind
    rw [hkey, decide_eq_true_eq] at hfound
    obtain rfl : r' = r := Table.eq_of_key hr' hr hfound
    rw [hid]
    split_ifs with h
    · rfl
    · exact Node.flush_loaded (hg _).id_eq
  · rename_i hfind
    have := List.find?_eq_none.1 hfind _ (List.mem_map_of_mem (List.mem_map_of_mem hr))
    rw [hkey] at this
    simp at this

theorem Node.SameButCounters.birth {n n' : Node} (h : n.SameButCounters n') : n.SameBirth n' := by
  rw [h]
  rfl

theorem StepWrite.sameWork {db : Db} {x x' : Step} (h : StepWrite db r x x') : x.SameWork x' := by
  cases h <;> rfl

theorem flushStep_sameWork {nodeId : String} {body : NodeHeartbeatRequest}
    (hr : r.call = .heartbeatNode nodeId body) {now : Instant} {own : Node} {db : Db}
    {out : List Step} {nodes : List Node}
    (h : scheduleQueuedSteps app now own db = .ok (out, nodes)) {x : Step}
    (hx : x ∈ db.steps.rows) : x.SameWork (flushStep out x) := by
  rcases flushStep_write hr h hx with he | hw
  · rw [he]
    exact .refl x
  · exact hw.sameWork

/-- A heartbeat keeps the nodes, and the work of the steps. -/
theorem heartbeatCommit_grows {nodeId : String} {body : NodeHeartbeatRequest}
    (hr : r.call = .heartbeatNode nodeId body) (app : App) (now : Instant) {loaded own : Node}
    (hbirth : loaded.SameBirth own) (hid : own.id = loaded.id) (db : Db) :
    db.Grows (heartbeatCommit app now loaded own db).2 := by
  unfold heartbeatCommit
  split
  · exact .refl db
  · rename_i out nodes h
    refine ⟨.update (flushNode_id loaded own nodes) fun n hn => ?_, .refl .refl _, .refl .refl _,
      .update (flushStep_id out) fun x hx => flushStep_sameWork hr h hx⟩
    rw [scheduleQueuedSteps_eq] at h
    obtain ⟨g, rfl, hg⟩ := scheduleLoop_nodes (fun s hs => (mem_queuedSteps.1 hs).2) h
    rw [flushNode_pass hid hg hn]
    split_ifs
    · exact Eq.trans (Node.sameBirth_flush (hg own).birth _) (Node.sameBirth_flush hbirth n)
    · exact (hg n).birth

/-- **Every write makes the database grow.** -/
theorem Write.grows {db db' : Db} (h : Write app r db db') : db.Grows db' := by
  cases h with
  | read => exact .refl db
  | @registered body node root now =>
    refine ⟨.update (fun n => by split_ifs <;> rfl) fun n _ => ?_, .refl .refl _, .refl .refl _,
      .refl .refl _⟩
    split_ifs
    exacts [Node.sameBirth_flush rfl n, .refl n]
  | inserted _ hins => exact ⟨.insert .refl hins, .refl .refl _, .refl .refl _, .refl .refl _⟩
  | @heartbeat nodeId body node hr =>
    have hbirth : node.SameBirth (node.heartbeat body (r.ambient.clock 0) (r.ambient.clock 1)) := rfl
    exact heartbeatCommit_grows hr app _ hbirth rfl db
  | planned _ hj hp hs =>
    exact ⟨.refl .refl _, .insert .refl hj, .insert .refl hp, .insert .refl hs⟩
  | @job old new hsame =>
    refine ⟨.refl .refl _, .update (fun j => by split_ifs <;> rfl) fun j _ => ?_, .refl .refl _,
      .refl .refl _⟩
    split_ifs
    exacts [Job.flush_sameOrder hsame j, .refl j]
  | steps guard values =>
    unfold updateSteps
    split_ifs
    · refine ⟨.refl .refl _, .refl .refl _, .refl .refl _,
        .update (fun x => by split_ifs <;> simp [Step.setValues_id]) fun x _ => ?_⟩
      split_ifs
      exacts [x.sameWork_setValues values, .refl x]
    · exact .refl db

theorem recoverStep_grows (stepId : String) (db : Db) : db.Grows (recoverStep stepId db) := by
  refine ⟨.refl .refl _, .refl .refl _, .refl .refl _,
    .update (fun x => by split_ifs <;> simp [recoverRow_id]) fun x _ => ?_⟩
  split_ifs
  exacts [recoverRow_sameWork x, .refl x]

variable {db₀ : Db} {tr : List (Trans app.controller)} {c : Conf Db HttpError Response Request}
  {t : Trans app.controller}

theorem App.Run.grows_step (h : app.Run db₀ tr c) (ht : t ∈ tr) : t.pre.db.Grows t.post.db := by
  rcases h.write ht with he | ⟨i, r, -, hw⟩ | ⟨stepId, -, he⟩
  · rw [he]; exact .refl _
  · exact hw.grows
  · rw [he]; exact recoverStep_grows ..

/-- **The database of a run grows**, from each of its transitions on. -/
theorem App.Run.grows (h : app.Run db₀ tr c) :
    db₀.Grows c.db ∧ ∀ t ∈ tr, t.pre.db.Grows t.post.db ∧ t.post.db.Grows c.db := by
  induction h with
  | init => exact ⟨.refl _, fun t ht => absurd ht List.not_mem_nil⟩
  | @step tr c h a ih =>
    have hlast := App.Run.grows_step (h.step a) List.mem_cons_self
    refine ⟨ih.1.trans hlast, fun t ht => ?_⟩
    rcases List.mem_cons.1 ht with rfl | ht
    · exact ⟨hlast, .refl _⟩
    · exact ⟨(ih.2 t ht).1, (ih.2 t ht).2.trans hlast⟩

/-! ## Linked rows -/

/-- The n-th job, the n-th plan and the n-th step belong together. -/
structure Db.Linked (db : Db) : Prop where
  plans : db.plans.rows.map (fun p => (p.jobId, some p.id)) =
    db.jobs.rows.map fun j => (j.id, j.planId)
  steps : db.steps.rows.map (fun x => (x.jobId, some x.planId)) =
    db.jobs.rows.map fun j => (j.id, j.planId)

theorem Db.empty_linked : Db.empty.Linked := ⟨rfl, rfl⟩

/-- What links the rows is as it was. -/
structure SameLinks (db db' : Db) : Prop where
  jobs : db'.jobs.rows.map (fun j => (j.id, j.planId)) = db.jobs.rows.map fun j => (j.id, j.planId)
  plans : db'.plans = db.plans
  steps : db'.steps.rows.map (fun x => (x.jobId, some x.planId)) =
    db.steps.rows.map fun x => (x.jobId, some x.planId)

theorem Db.Linked.keep {db db' : Db} (hdb : db.Linked) (h : SameLinks db db') : db'.Linked :=
  ⟨by rw [h.plans, h.jobs, hdb.plans], by rw [h.steps, h.jobs, hdb.steps]⟩

/-- A change of steps that keeps their work. -/
theorem SameLinks.of_steps {db db' : Db} (f : Step → Step) (hf)
    (hsteps : db'.steps = db.steps.update f hf) (hjobs : db'.jobs = db.jobs)
    (hplans : db'.plans = db.plans) (h : ∀ x ∈ db.steps.rows, x.SameWork (f x)) :
    SameLinks db db' := by
  refine ⟨by rw [hjobs], hplans, ?_⟩
  rw [hsteps, Table.rows_update, List.map_map]
  refine List.map_congr_left fun x hx => ?_
  rw [Function.comp, h x hx]

/-- **Every write keeps the rows linked.** -/
theorem Write.linked {db db' : Db} (h : Write app r db db') (hdb : db.Linked) : db'.Linked := by
  cases h with
  | read => exact hdb
  | registered | inserted => exact ⟨hdb.plans, hdb.steps⟩
  | heartbeat hr =>
    unfold heartbeatCommit
    split
    · exact hdb
    · rename_i out nodes h
      exact hdb.keep (.of_steps _ (flushStep_id out) rfl rfl rfl fun x hx =>
        flushStep_sameWork hr h hx)
  | planned _ hj hp hs =>
    constructor
    · rw [(Table.insert?_eq_some hj).2, (Table.insert?_eq_some hp).2, List.map_append,
        List.map_append, hdb.plans]
      rfl
    · rw [(Table.insert?_eq_some hj).2, (Table.insert?_eq_some hs).2, List.map_append,
        List.map_append, hdb.steps]
      rfl
  | @job old new hsame =>
    refine hdb.keep ⟨?_, rfl, rfl⟩
    rw [Table.rows_update, List.map_map]
    refine List.map_congr_left fun j _ => ?_
    rw [Function.comp]
    split_ifs
    · rw [Job.flush_id, (Job.flush_sameOrder hsame j).planId_eq]
    · rfl
  | steps guard values =>
    unfold updateSteps
    split_ifs
    · refine hdb.keep (.of_steps _ (fun x => ?_) rfl rfl rfl fun x _ => ?_)
      · split_ifs <;> simp [Step.setValues_id]
      · split_ifs
        exacts [x.sameWork_setValues values, .refl x]
    · exact hdb

theorem App.Run.linked (h : app.Run db₀ tr c) (h₀ : db₀.Linked) : c.db.Linked := by
  induction h with
  | init => exact h₀
  | @step tr c h a ih =>
    rcases App.Run.write (h.step a) List.mem_cons_self with he | ⟨i, r, -, hw⟩ | ⟨stepId, -, he⟩
    · exact (show (app.controller.step c a).db = c.db from he) ▸ ih
    · exact hw.linked ih
    · rw [show (app.controller.step c a).db = recoverStep stepId c.db from he]
      refine ih.keep (.of_steps _ (fun x => ?_) rfl rfl rfl fun x _ => ?_)
      · split_ifs <;> simp [recoverRow_id]
      · split_ifs
        exacts [recoverRow_sameWork x, .refl x]

/-- What belongs to a job: its plan and its step. -/
structure Belong (db : Db) (j : Job) (p : Plan) (x : Step) : Prop where
  plan : p ∈ db.plans.rows ∧ p.jobId = j.id ∧ j.planId = some p.id
  step : x ∈ db.steps.rows ∧ x.jobId = j.id ∧ x.planId = p.id
  onlyPlan : ∀ p' ∈ db.plans.rows, p'.jobId = j.id → p' = p
  onlyStep : ∀ x' ∈ db.steps.rows, x'.jobId = j.id → x' = x

/-- **A job has one plan and one step.** -/
theorem Db.Linked.belong {db : Db} (h : db.Linked) {j : Job} (hj : j ∈ db.jobs.rows) :
    ∃ p x, Belong db j p x := by
  have hlink : (j.id, j.planId) ∈ db.jobs.rows.map fun j => (j.id, j.planId) :=
    List.mem_map_of_mem hj
  obtain ⟨p, hp, hpj⟩ := List.mem_map.1 (h.plans ▸ hlink)
  obtain ⟨x, hx, hxj⟩ := List.mem_map.1 (h.steps ▸ hlink)
  obtain ⟨hpj, hpid⟩ := Prod.mk.inj hpj
  obtain ⟨hxj, hxp⟩ := Prod.mk.inj hxj
  -- the job ids of the plans and of the steps are the ids of the jobs
  have hplans : (db.plans.rows.map Plan.jobId).Nodup := by
    have := congrArg (List.map Prod.fst) h.plans
    simp only [List.map_map, Function.comp_def] at this
    exact this ▸ db.jobs.nodup
  have hsteps : (db.steps.rows.map Step.jobId).Nodup := by
    have := congrArg (List.map Prod.fst) h.steps
    simp only [List.map_map, Function.comp_def] at this
    exact this ▸ db.jobs.nodup
  refine ⟨p, x, ⟨hp, hpj, hpid.symm⟩, ⟨hx, hxj, Option.some.inj (hxp.trans hpid.symm)⟩,
    fun p' hp' hj' => ?_, fun x' hx' hj' => ?_⟩
  · exact List.inj_on_of_nodup_map hplans hp' hp (hj'.trans hpj.symm)
  · exact List.inj_on_of_nodup_map hsteps hx' hx (hj'.trans hxj.symm)

/-! ## Orders -/

/-- The job is recorded as the request has ordered it, with its plan and its step. -/
def Ordered (app : App) (r : Request) (db : Db) (j : Job) : Prop :=
  ∃ body inputFile outputDir x, Plans app r body inputFile outputDir ∧
    (planRows app r body inputFile outputDir).1.SameOrder j ∧
    (planRows app r body inputFile outputDir).2.2.SameWork x ∧
    Belong db j (planRows app r body inputFile outputDir).2.1 x

/-- The request inserts the rows of the job `k`. -/
def Inserts (app : App) (r : Request) (k : String) (db db' : Db) : Prop :=
  ∃ body inputFile outputDir jobs plans steps, Plans app r body inputFile outputDir ∧
    (planRows app r body inputFile outputDir).1.id = k ∧
    db.jobs.insert? (planRows app r body inputFile outputDir).1 = some jobs ∧
    db.plans.insert? (planRows app r body inputFile outputDir).2.1 = some plans ∧
    db.steps.insert? (planRows app r body inputFile outputDir).2.2 = some steps ∧
    db' = { db with jobs := jobs, plans := plans, steps := steps }

variable {k : String}

theorem Inserts.fresh {db db' : Db} (h : Inserts app r k db db') :
    db.jobs.get? k = none ∧ (db'.jobs.get? k).isSome := by
  obtain ⟨body, inputFile, outputDir, jobs, plans, steps, -, rfl, hj, -, -, rfl⟩ := h
  exact ⟨(Table.insert?_eq_some hj).1, Option.isSome_of_eq_some (Table.get?_insert_self hj)⟩

/-- Only an order adds a job. -/
theorem Write.inserts {db db' : Db} (h : Write app r db db') (hn : db.jobs.get? k = none)
    (hj : (db'.jobs.get? k).isSome) : Inserts app r k db db' := by
  cases h with
  | read | registered | inserted => simp [hn] at hj
  | heartbeat =>
    unfold heartbeatCommit at hj
    split at hj <;> simp [hn] at hj
  | planned hp hjobs hplans hsteps =>
    refine ⟨_, _, _, _, _, _, hp, ?_, hjobs, hplans, hsteps, rfl⟩
    by_contra hk
    rw [Table.get?_insert hjobs, Job.key_eq, if_neg hk, hn] at hj
    cases hj
  | job => simp [hn] at hj
  | steps guard values =>
    unfold updateSteps at hj
    split_ifs at hj <;> simp [hn] at hj

/-- **A job of a run was there before or was ordered.** -/
theorem App.Run.origin (h : app.Run db₀ tr c) (hn : db₀.jobs.get? k = none)
    (hj : (c.db.jobs.get? k).isSome) :
    ∃ t ∈ tr, ∃ i r, t.By i r ∧ Inserts app r k t.pre.db t.post.db := by
  induction h with
  | init => simp [hn] at hj
  | @step tr c h a ih =>
    by_cases hbefore : (c.db.jobs.get? k).isSome
    · obtain ⟨t, ht, hcr⟩ := ih hbefore
      exact ⟨t, List.mem_cons_of_mem _ ht, hcr⟩
    have hnone : c.db.jobs.get? k = none := by simpa using hbefore
    rcases App.Run.write (h.step a) List.mem_cons_self with he | ⟨i, r, hby, hw⟩ | ⟨stepId, -, he⟩
    · rw [show (app.controller.step c a).db = c.db from he, hnone] at hj
      cases hj
    · exact ⟨_, List.mem_cons_self, i, r, hby, hw.inserts hnone hj⟩
    · rw [show (app.controller.step c a).db = recoverStep stepId c.db from he,
        show (recoverStep stepId c.db).jobs = c.db.jobs from rfl, hnone] at hj
      cases hj

/-- What was inserted stays recorded. -/
theorem Inserts.ordered {db db' : Db} (h : Inserts app r k db db') {db'' : Db}
    (hg : db'.Grows db'') (hlinked : db''.Linked) :
    ∃ j, db''.jobs.get? k = some j ∧ Ordered app r db'' j := by
  obtain ⟨body, inputFile, outputDir, jobs, plans, steps, hp, rfl, hjobs, hplans, hsteps, rfl⟩ := h
  obtain ⟨j, hj, hjob⟩ := hg.jobs.get? (Table.get?_insert_self hjobs)
  obtain ⟨p, hplan, rfl⟩ := hg.plans.get? (Table.get?_insert_self hplans)
  obtain ⟨x, hx, hstep⟩ := hg.steps.get? (Table.get?_insert_self hsteps)
  refine ⟨j, hj, body, inputFile, outputDir, x, hp, hjob, hstep, ?_⟩
  -- the plan and the step of the job are those that were inserted with it
  obtain ⟨p, x', hb⟩ := hlinked.belong (Table.mem_of_get? hj)
  obtain rfl := hb.onlyPlan _ (Table.mem_of_get? hplan) hjob.id_eq.symm
  obtain rfl := hb.onlyStep x (Table.mem_of_get? hx) (by rw [hstep, hjob.id_eq]; rfl)
  exact hb

/-- A job is ordered once. -/
theorem App.Run.inserts_once (h : app.Run db₀ tr c) {t t' : Trans app.controller} {r r' : Request}
    (ht : t ∈ tr) (ht' : t' ∈ tr) (hc : Inserts app r k t.pre.db t.post.db)
    (hc' : Inserts app r' k t'.pre.db t'.post.db) : t = t' := by
  have hpair : tr.Pairwise fun t t' => ¬ ∃ r r', Inserts app r k t.pre.db t.post.db ∧
      Inserts app r' k t'.pre.db t'.post.db := by
    refine h.pairwise fun tr₁ t h₁ _ t' ht' => ?_
    rintro ⟨r, r', hc, hc'⟩
    -- what the earlier one has inserted is there for the later one
    obtain ⟨j, hj⟩ := Option.isSome_iff_exists.1 hc'.fresh.2
    obtain ⟨j', hj', -⟩ := ((App.Run.grows h₁).2 t' ht').2.jobs.get? hj
    rw [hc.fresh.1] at hj'
    cases hj'
  have hsymm : Std.Symm fun t t' : Trans app.controller => ¬ ∃ r r',
      Inserts app r k t.pre.db t.post.db ∧ Inserts app r' k t'.pre.db t'.post.db :=
    ⟨fun _ _ hno ⟨r, r', hc, hc'⟩ => hno ⟨r', r, hc', hc⟩⟩
  by_contra hne
  exact hpair.forall ht ht' hne ⟨r, r', hc, hc'⟩

/-! ## Answers -/

/-- `create_job` has inserted the job it returns. -/
theorem createJob_inserts {body : JobCreateRequest} (hr : r.call = .createJob body) (j : Job) :
    Before (fun _ => True) (Inserts app r j.id) (fun o => o ≠ .ok j)
      (createJob app r.ambient body) := by
  have herr : ∀ e : HttpError, (Except.error e : Except HttpError Job) ≠ .ok j :=
    fun e h => nomatch h
  unfold createJob
  split_ifs
  · exact herr _
  split
  · exact herr _
  rename_i inputFile hin
  dsimp only
  split
  · exact herr _
  rename_i outputDir hout
  refine Before.bind (Before.atomic fun db _ => ?_)
  unfold insertJob
  split
  · rename_i jobs plans steps hj hp hs
    by_cases hid : (planRows app r body inputFile outputDir).1.id = j.id
    · exact Or.inl ⟨body, inputFile, outputDir, jobs, plans, steps, ⟨hr, hin, hout⟩, hid, hj, hp,
        hs, rfl⟩
    · -- then it returns another job
      refine Or.inr (Before.bind (Before.read fun db' _ => Or.inr ?_))
      dsimp only
      cases hget : db'.jobs.get? (newRows app r.ambient body inputFile.str outputDir.str).1.id with
      | none => exact herr _
      | some j' =>
        rintro ⟨⟩
        exact hid (Table.key_of_get? hget).symm
  · exact Or.inr (herr _)

/-- `create_job` has read the job it returns. -/
theorem createJob_reads {body : JobCreateRequest} (j : Job) :
    Before (fun _ => True) (fun db _ => db.jobs.get? j.id = some j) (fun o => o ≠ .ok j)
      (createJob app r.ambient body) := by
  have herr : ∀ e : HttpError, (Except.error e : Except HttpError Job) ≠ .ok j :=
    fun e h => nomatch h
  unfold createJob
  split_ifs
  · exact herr _
  split
  · exact herr _
  rename_i inputFile hin
  dsimp only
  split
  · exact herr _
  rename_i outputDir hout
  refine Before.seq _ herr fun inserted => ?_
  split_ifs
  · exact herr _
  refine Before.bind (Before.read fun db _ => ?_)
  dsimp only
  cases hget : db.jobs.get? (newRows app r.ambient body inputFile.str outputDir.str).1.id with
  | none => exact Or.inr (herr _)
  | some j' =>
    by_cases hj : j' = j
    · subst hj
      left
      rw [← hget, ← Table.key_of_get? hget]
      rfl
    · right
      rintro ⟨⟩
      exact hj rfl

/-- What `create_job` has done before it returns, an order has done before it is answered. -/
theorem handle_before {W : Db → Db → Prop} {j : Job} (r : Request)
    (h : ∀ body, r.call = .createJob body →
      Before (fun _ => True) W (fun o => o ≠ .ok j) (createJob app r.ambient body)) :
    Before (fun _ => True) W (fun o => ∀ body, r.call = .createJob body → o ≠ .ok (.job j))
      (app.handle r) := by
  by_cases hr : ∃ body, r.call = .createJob body
  · obtain ⟨body, hr⟩ := hr
    have herr : ∀ (e : HttpError) body', r.call = .createJob body' →
        (Except.error e : Except HttpError Response) ≠ .ok (.job j) := fun e _ _ h => nomatch h
    refine Before.seq _ herr fun _ => ?_
    simp only [hr]
    refine Before.bind ((h body hr).imp fun o ho => ?_)
    cases o with
    | error e => exact fun _ _ h => nomatch h
    | ok j' =>
      rintro _ _ ⟨⟩
      exact ho rfl
  · exact Before.of_forall (fun o body hbody => absurd ⟨body, hbody⟩ hr) _

/-- Handler `i` has answered an order with the job `j`. -/
def Answered (c : Conf Db HttpError Response Request) (i : ℕ) (r : Request) (j : Job) : Prop :=
  (∃ body, r.call = .createJob body) ∧ c.procs[i]? = some (r, Service.done (.ok (.job j)))

variable {i i' : ℕ} {r' : Request} {j j' : Job}

/-- **An answered order** has inserted its job, and has read it. -/
theorem App.Run.answered (h : app.Run db₀ tr c) (hi : Answered c i r j) :
    (∃ t ∈ tr, t.By i r ∧ Inserts app r j.id t.pre.db t.post.db) ∧
      ∃ t ∈ tr, t.By i r ∧ t.pre.db.jobs.get? j.id = some j := by
  obtain ⟨⟨body, hr⟩, hi⟩ := hi
  constructor
  · rcases Service.Run.before (fun r => handle_before r fun body hr => createJob_inserts hr j) h
      (fun _ _ => trivial) i r _ hi with hdone | hnot
    · exact hdone
    · exact absurd rfl (hnot body hr)
  · rcases Service.Run.before (fun r => handle_before r fun body _ => createJob_reads j) h
      (fun _ _ => trivial) i r _ hi with hdone | hnot
    · exact hdone
    · exact absurd rfl (hnot body hr)

/-- Two handlers have not answered with one job. -/
theorem App.Run.answered_once (h : app.Run db₀ tr c) (hi : Answered c i r j)
    (hi' : Answered c i' r' j') (hid : j.id = j'.id) : i = i' := by
  obtain ⟨⟨t, ht, hby, hcr⟩, -⟩ := h.answered hi
  obtain ⟨⟨t', ht', hby', hcr'⟩, -⟩ := h.answered hi'
  obtain rfl := h.inserts_once ht ht' hcr (hid ▸ hcr')
  exact Act.act.inj (hby.1.symm.trans hby'.1)

/-- **Orders are kept.**  In a run from linked rows, every job has one plan and one step;
    no row is lost and its fixed columns do not change; an order that was answered is on
    record as it was made, under a job of its own; and every job that is new was ordered. -/
theorem orders_kept (h₀ : db₀.Linked) (h : app.Run db₀ tr c) :
    (∀ j ∈ c.db.jobs.rows, ∃ p x, Belong c.db j p x) ∧ (∀ t ∈ tr, t.pre.db.Grows c.db) ∧
    (∀ i r j, Answered c i r j →
      ∃ j', c.db.jobs.get? j.id = some j' ∧ j.SameOrder j' ∧ Ordered app r c.db j') ∧
    (∀ i i' r r' j j', Answered c i r j → Answered c i' r' j' → j.id = j'.id → i = i') ∧
    ∀ k j, db₀.jobs.get? k = none → c.db.jobs.get? k = some j →
      ∃ (i : ℕ) (r : Request) (p : Handler Response),
        c.procs[i]? = some (r, p) ∧ Ordered app r c.db j := by
  have hlinked := h.linked h₀
  refine ⟨fun j => hlinked.belong, fun t ht => ?_, ?_, ?_, ?_⟩
  · obtain ⟨hstep, hrest⟩ := h.grows.2 t ht
    exact hstep.trans hrest
  · intro i r j hi
    obtain ⟨⟨t, ht, -, hcr⟩, t', ht', -, hread⟩ := h.answered hi
    obtain ⟨j', hj', hord⟩ := hcr.ordered (h.grows.2 t ht).2 hlinked
    obtain ⟨hstep, hrest⟩ := h.grows.2 t' ht'
    obtain ⟨j'', hj'', hsame⟩ := (hstep.trans hrest).jobs.get? hread
    cases hj'.symm.trans hj''
    exact ⟨j', hj', hsame, hord⟩
  · intro i i' r r' j j' hi hi' hid
    exact h.answered_once hi hi' hid
  · intro k j hn hj
    obtain ⟨t, ht, i, r, hby, hcr⟩ := h.origin hn (Option.isSome_of_eq_some hj)
    obtain ⟨p, hp⟩ := Service.Run.handler_stays h ht hby
    obtain ⟨j', hj', hord⟩ := hcr.ordered (h.grows.2 t ht).2 hlinked
    cases hj.symm.trans hj'
    exact ⟨i, r, p, hp, hord⟩

/-- The job of the run that completes `step_a` is as it was ordered. -/
theorem orders_kept_sample :
    let run := sampleRun (oneByOne 0 (sampleAssigned ++ sampleCompleted))
    (run.2.db.jobs.get? "job_a").isSome ∧
      ∀ k j, Db.empty.jobs.get? k = none → run.2.db.jobs.get? k = some j →
        ∃ (i : ℕ) (r : Request) (p : Handler Response),
          run.2.procs[i]? = some (r, p) ∧ Ordered sampleApp r run.2.db j :=
  ⟨by decide +kernel, (orders_kept Db.empty_linked (sampleRun_run _)).2.2.2.2⟩

end MediaOrchard
