/-
  What one database action of a request can do.

  * `StepWrite r x x'`: request `r` turns the step row `x` into `x'`; each case
    carries the guard of its `UPDATE`, so it holds of the row at the moment it
    is changed, whatever the handler read before;
  * `JobWrite db r old new`: request `r` flushes the job object `new`, loaded as
    `old`, and what is then known of the steps;
  * `Effect r db db'`: one action of `r`;
  * `Rely db db'`: what every action leaves intact, on which the handlers rely
    between their own actions.
-/
import MediaOrchard.Controller.Api

namespace MediaOrchard

open Keyed Interleave

/-- The step and the epoch named by a lifecycle request. -/
def Call.fence? : Call → Option (String × ℤ)
  | .startStep stepId body => some (stepId, body.assignmentEpoch)
  | .progressStep stepId body => some (stepId, body.assignmentEpoch)
  | .completeStep stepId body => some (stepId, body.assignmentEpoch)
  | .failStep stepId body => some (stepId, body.assignmentEpoch)
  | .claimStep stepId body => some (stepId, body.assignmentEpoch)
  | _ => none

/-- The row is the one the lifecycle request names, under the epoch and the
    node it carries. -/
structure Fenced (r : Request) (x : Step) : Prop where
  fence : r.call.fence? = some (x.id, x.assignmentEpoch)
  owner : x.assignedNodeId = r.headers.xMediaorchardNodeId
  owned : x.assignedNodeId.isSome

/-- A change of a step row by request `r`. -/
inductive StepWrite (db : Db) (r : Request) (x : Step) : Step → Prop
  | assign {nodeId body n now} : r.call = .heartbeatNode nodeId body → x.status = .queued →
      (db.nodes.get? n).isSome → StepWrite db r x (x.assigned n now)
  | claimNext {body now} : r.call = .claimNext body → x.status = .assigned →
      x.assignedNodeId = some body.nodeId → r.headers.xMediaorchardNodeId = some body.nodeId →
      x.claimedAt = none → StepWrite db r x { x with claimedAt := some now }
  | claim {stepId body now} : r.call = .claimStep stepId body → Fenced r x →
      x.status = .assigned → x.claimedAt = none →
      StepWrite db r x { x with claimedAt := some now }
  | start {stepId body now} : r.call = .startStep stepId body → Fenced r x →
      x.status = .assigned → StepWrite db r x { x with status := .running, startedAt := some now }
  | progress {stepId body out} : r.call = .progressStep stepId body → Fenced r x →
      x.status = .running → StepWrite db r x { x with outputJson := some out }
  | complete {stepId body now} : r.call = .completeStep stepId body → Fenced r x →
      x.status = .running → StepWrite db r x { x with
        status := .completed, outputJson := some body.outputJson, completedAt := some now }
  | fail {stepId body now} : r.call = .failStep stepId body → Fenced r x →
      (x.status = .assigned ∨ x.status = .running) → StepWrite db r x { x with
        status := .failed, errorMessage := some body.errorMessage, completedAt := some now }

/-- The flush of a job object by request `r`. -/
inductive JobWrite (db : Db) (r : Request) (old : Job) : Job → Prop
  | running {stepId body x now} : r.call = .startStep stepId body →
      (old.status = .created ∨ old.status = .queued) →
      db.steps.get? stepId = some x → x.jobId = old.id → x.startedAt.isSome →
      JobWrite db r old
        { old with status := .running, progress := max old.progress 1, updatedAt := now }
  | completed {stepId body x now now'} : r.call = .completeStep stepId body →
      db.steps.get? stepId = some x → x.jobId = old.id → x.status = .completed →
      (∀ y ∈ db.steps.rows, y.jobId = old.id → y.status = .completed) →
      JobWrite db r old { old with
        progress := 100, status := .completed, completedAt := some now, updatedAt := now' }
  | partly {stepId body x y p now} : r.call = .completeStep stepId body →
      db.steps.get? stepId = some x → x.jobId = old.id → x.status = .completed →
      y ∈ db.steps.rows → y.jobId = old.id → y.id ≠ stepId →
      JobWrite db r old { old with progress := p, status := .running, updatedAt := now }
  | failed {stepId body x now now'} : r.call = .failStep stepId body →
      db.steps.get? stepId = some x → x.jobId = old.id → x.status = .failed →
      JobWrite db r old { old with
        status := .failed, errorMessage := some body.errorMessage, completedAt := some now,
        updatedAt := now' }

/-- One database action of request `r`. -/
inductive Effect (app : App) (r : Request) (db : Db) : Db → Prop
  | read : Effect app r db db
  | steps (f hf) : (∀ x ∈ db.steps.rows, f x = x ∨ StepWrite db r x (f x)) →
      (∀ n b, r.call ≠ .heartbeatNode n b) →
      Effect app r db { db with steps := db.steps.update f hf }
  | heartbeat (f hf g hg) {nodeId body} : r.call = .heartbeatNode nodeId body →
      (∀ x ∈ db.steps.rows, f x = x ∨ StepWrite db r x (f x)) →
      Effect app r db { db with nodes := db.nodes.update g hg, steps := db.steps.update f hf }
  | register (nodes) {body} : r.call = .registerNode body →
      (∀ k, (db.nodes.get? k).isSome → (nodes.get? k).isSome) →
      Effect app r db { db with nodes := nodes }
  | create {body inputFile outputDir jobs plans steps} : r.call = .createJob body →
      db.jobs.insert? (newRows app r.ambient body inputFile outputDir).1 = some jobs →
      db.steps.insert? (newRows app r.ambient body inputFile outputDir).2.2 = some steps →
      Effect app r db { db with jobs := jobs, plans := plans, steps := steps }
  | job {old new} : JobWrite db r old new →
      Effect app r db { db with
        jobs := db.jobs.update (fun j => if j.id = old.id then Job.flush old new j else j)
          fun j => by split_ifs <;> rfl }

/-! ## What survives -/

/-- A row after changes by others. -/
structure RowKept (x x' : Step) : Prop where
  job : x'.jobId = x.jobId
  started : x.startedAt.isSome → x'.startedAt.isSome
  final : x.status = .completed ∨ x.status = .failed → x' = x

/-- What every action leaves intact. -/
structure Rely (db db' : Db) : Prop where
  row : ∀ k x, db.steps.get? k = some x → ∃ x', db'.steps.get? k = some x' ∧ RowKept x x'
  fixed : ∀ k x', db'.steps.get? k = some x' → (db.jobs.get? x'.jobId).isSome →
    ∃ x, db.steps.get? k = some x
  job : ∀ k, (db.jobs.get? k).isSome → (db'.jobs.get? k).isSome

theorem RowKept.refl (x : Step) : RowKept x x := ⟨rfl, id, fun _ => rfl⟩

theorem Rely.refl (db : Db) : Rely db db :=
  ⟨fun _ x h => ⟨x, h, .refl x⟩, fun _ x h _ => ⟨x, h⟩, fun _ h => h⟩

theorem RowKept.trans {x y z : Step} (h : RowKept x y) (h' : RowKept y z) : RowKept x z where
  job := h'.job.trans h.job
  started hs := h'.started (h.started hs)
  final hs := by
    obtain rfl := h.final hs
    exact h'.final hs

theorem Rely.trans {a b c : Db} (h : Rely a b) (h' : Rely b c) : Rely a c where
  row k x hx := by
    obtain ⟨y, hy, hk⟩ := h.row k x hx
    obtain ⟨z, hz, hk'⟩ := h'.row k y hy
    exact ⟨z, hz, hk.trans hk'⟩
  fixed k z hz hj := by
    obtain ⟨y, hy⟩ := h'.fixed k z hz (h.job _ hj)
    obtain ⟨z', hz', hk⟩ := h'.row k y hy
    cases hz.symm.trans hz'
    exact h.fixed k y hy (hk.job ▸ hj)
  job k hj := h'.job k (h.job k hj)

/-- A change of the step rows in place. -/
theorem Rely.of_update {db db' : Db} (f : Step → Step) (hf) (hs : db'.steps = db.steps.update f hf)
    (hj : ∀ k, (db.jobs.get? k).isSome → (db'.jobs.get? k).isSome)
    (h : ∀ x ∈ db.steps.rows, RowKept x (f x)) : Rely db db' where
  row k x hx := ⟨f x, by simp [hs, hx], h x (Table.mem_of_get? hx)⟩
  fixed k x' hx' _ := by
    rw [hs, Table.get?_update, Option.map_eq_some_iff] at hx'
    obtain ⟨x, hx, -⟩ := hx'
    exact ⟨x, hx⟩
  job := hj

/-- Only rows that are not final are written. -/
theorem StepWrite.open {db : Db} {r : Request} {x x' : Step} (h : StepWrite db r x x') :
    x.status ≠ .completed ∧ x.status ≠ .failed := by
  cases h with
  | assign _ h | claimNext _ h | claim _ _ h | start _ _ h | progress _ _ h | complete _ _ h =>
    simp [h]
  | fail _ _ h => rcases h with h | h <;> simp [h]

theorem StepWrite.kept {db : Db} {r : Request} {x x' : Step} (h : StepWrite db r x x') :
    RowKept x x' where
  job := by cases h <;> rfl
  started hs := by cases h <;> first | exact hs | rfl
  final hx := by
    obtain ⟨h1, h2⟩ := h.open
    rcases hx with hx | hx
    exacts [absurd hx h1, absurd hx h2]

theorem kept_of_write {db : Db} {r : Request} {x x' : Step}
    (h : x' = x ∨ StepWrite db r x x') : RowKept x x' := by
  rcases h with rfl | h
  exacts [.refl _, h.kept]

theorem recovered_kept {x : Step} (h : x.status = .assigned ∨ x.status = .running) :
    RowKept x x.recovered where
  job := by unfold Step.recovered; split_ifs <;> rfl
  started hs := by unfold Step.recovered; split_ifs <;> exact hs
  final hx := by rcases h with h | h <;> simp [h] at hx

theorem recoverRow_kept (x : Step) : RowKept x (recoverRow x) := by
  rw [recoverRow_eq]
  split_ifs with h
  exacts [recovered_kept h, .refl x]

theorem rely_recoverStep (stepId : String) (db : Db) : Rely db (recoverStep stepId db) := by
  refine Rely.of_update _ (fun r => by split_ifs <;> simp [recoverRow_id]) rfl (fun _ h => h)
    fun x _ => ?_
  split_ifs
  exacts [recoverRow_kept x, .refl x]

/-- **Every action of a request is relied on by the others.** -/
theorem Effect.rely {app : App} {r : Request} {db db' : Db} (h : Effect app r db db') :
    Rely db db' := by
  cases h with
  | read => exact .refl db
  | steps f hf h | heartbeat f hf g hg _ h =>
    exact Rely.of_update f hf rfl (fun _ h => h) fun x hx => kept_of_write (h x hx)
  | register nodes =>
    exact ⟨fun _ x h => ⟨x, h, .refl x⟩, fun _ x h _ => ⟨x, h⟩, fun _ h => h⟩
  | @create body inputFile outputDir jobs plans steps _ hj hs =>
    refine ⟨fun k x hx => ⟨x, ?_, .refl x⟩, fun k x' hx' hjob => ?_, fun k hk => ?_⟩
    · rw [Table.get?_insert hs, if_neg fun hk => ?_, hx]
      have := (Table.insert?_eq_some hs).1
      rw [hk, hx] at this; cases this
    · rw [Table.get?_insert hs] at hx'
      split_ifs at hx' with hk
      · -- the new step belongs to the new job
        cases hx'
        have := (Table.insert?_eq_some hj).1
        change (db.jobs.get? (newRows app r.ambient body inputFile outputDir).1.id).isSome at hjob
        rw [Job.key_eq] at this
        rw [this] at hjob; cases hjob
      · exact ⟨x', hx'⟩
    · rw [Table.get?_insert hj]
      split_ifs
      exacts [rfl, hk]
  | job =>
    refine ⟨fun _ x h => ⟨x, h, .refl x⟩, fun _ x h _ => ⟨x, h⟩, fun k hk => ?_⟩
    simpa using hk

/-- A registered node stays registered. -/
theorem Effect.node_kept {app : App} {r : Request} {db db' : Db} (h : Effect app r db db')
    {n : String} (hn : (db.nodes.get? n).isSome) : (db'.nodes.get? n).isSome := by
  cases h with
  | read | steps | create | job => exact hn
  | heartbeat _ _ g hg => simpa using hn
  | register nodes _ h => exact h n hn

end MediaOrchard
