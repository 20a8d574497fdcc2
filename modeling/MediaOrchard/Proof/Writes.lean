/-
  What the Controller writes, statement by statement.

  * `Job.SameOrder`, `Step.SameWork`: the columns that are fixed when a row is made;
  * `Write app r db db'`: one database action of request `r`, with the rows it writes,
    whatever the handler has read before;
  * `handle_writes`: every action of a request is such a write;
  * `App.Run.write`: so is every transition of a run, but for recoveries.
-/
import MediaOrchard.Proof.Creation

namespace MediaOrchard

open Keyed Interleave Prog

/-! ## Fixed columns -/

/-- A job after changes: what was ordered is the same. -/
def Job.SameOrder (j j' : Job) : Prop :=
  j' = { j with
    status := j'.status
    progress := j'.progress
    errorMessage := j'.errorMessage
    updatedAt := j'.updatedAt
    completedAt := j'.completedAt }

/-- A step after changes: the work is the same. -/
def Step.SameWork (x x' : Step) : Prop :=
  x' = { x with
    status := x'.status
    assignedNodeId := x'.assignedNodeId
    assignedAt := x'.assignedAt
    claimedAt := x'.claimedAt
    assignmentEpoch := x'.assignmentEpoch
    outputJson := x'.outputJson
    retryCount := x'.retryCount
    startedAt := x'.startedAt
    completedAt := x'.completedAt
    errorMessage := x'.errorMessage }

theorem Job.SameOrder.refl (j : Job) : j.SameOrder j := rfl

theorem Job.SameOrder.trans {a b c : Job} (h : a.SameOrder b) (h' : b.SameOrder c) :
    a.SameOrder c := by
  unfold Job.SameOrder at *
  rw [h', h]

theorem Job.SameOrder.id_eq {j j' : Job} (h : j.SameOrder j') : j'.id = j.id := by rw [h]

theorem Job.SameOrder.planId_eq {j j' : Job} (h : j.SameOrder j') : j'.planId = j.planId := by
  rw [h]

/-- An object whose order is unchanged leaves the order of the row alone. -/
theorem Job.flush_sameOrder {old new : Job} (h : old.SameOrder new) (cur : Job) :
    cur.SameOrder (Job.flush old new cur) := by
  rw [h]
  simp [Job.SameOrder, Job.flush, flushCol]

theorem Step.SameWork.refl (x : Step) : x.SameWork x := rfl

theorem Step.SameWork.trans {a b c : Step} (h : a.SameWork b) (h' : b.SameWork c) :
    a.SameWork c := by
  unfold Step.SameWork at *
  rw [h', h]

theorem StepValue.sameWork_set (x : Step) (v : StepValue) : x.SameWork (v.set x) := by
  cases v <;> rfl

theorem Step.sameWork_setValues (x : Step) (values : List StepValue) :
    x.SameWork (x.setValues values) := by
  unfold Step.setValues
  induction values generalizing x with
  | nil => rfl
  | cons v values ih => exact (v.sameWork_set x).trans (ih _)

theorem recoverRow_sameWork (x : Step) : x.SameWork (recoverRow x) := by
  rw [recoverRow_eq]
  unfold Step.recovered
  split_ifs <;> rfl

/-! ## Writes -/

/-- A request that registers a node is accepted: its root is the Controller's. -/
structure Registers (app : App) (r : Request) (body : NodeRegisterRequest) (root : ResolvedPath) :
    Prop where
  call : r.call = .registerNode body
  worker : r.ambient.fs.resolve body.sharedRoot = root
  controller : r.ambient.fs.resolve app.sharedRoot.str = root

/-- The node object that `register_node` makes. -/
def Node.fresh (body : NodeRegisterRequest) (root : ResolvedPath) (createdAt updatedAt : Instant) :
    Node where
  id := body.nodeId
  name := body.name
  sharedRoot := root.str
  createdAt := createdAt
  updatedAt := updatedAt

/-- One database action of request `r`. -/
inductive Write (app : App) (r : Request) (db : Db) : Db → Prop
  | read : Write app r db db
  | registered {body node root now} : Registers app r body root → node.id = body.nodeId →
      Write app r db { db with
        nodes := db.nodes.update (fun n => if n.id = node.id then
            Node.flush node (node.registered body r.ambient.clientHost root now) n else n)
          fun n => by split_ifs <;> rfl }
  | inserted {body root createdAt updatedAt now nodes} : Registers app r body root →
      db.nodes.insert? ((Node.fresh body root createdAt updatedAt).registered body
        r.ambient.clientHost root now) = some nodes →
      Write app r db { db with nodes := nodes }
  | heartbeat {nodeId body node} : r.call = .heartbeatNode nodeId body → body.invalid = [] →
      node.id = nodeId →
      Write app r db (heartbeatCommit app (r.ambient.clock 0) node
        (node.heartbeat body (r.ambient.clock 0) (r.ambient.clock 1)) db).2
  | planned {body inputFile outputDir jobs plans steps} : Plans app r body inputFile outputDir →
      db.jobs.insert? (planRows app r body inputFile outputDir).1 = some jobs →
      db.plans.insert? (planRows app r body inputFile outputDir).2.1 = some plans →
      db.steps.insert? (planRows app r body inputFile outputDir).2.2 = some steps →
      Write app r db { db with jobs := jobs, plans := plans, steps := steps }
  | job {old new} : old.SameOrder new →
      Write app r db { db with
        jobs := db.jobs.update (fun j => if j.id = old.id then Job.flush old new j else j)
          fun j => by split_ifs <;> rfl }
  | steps (guard values) : Write app r db (updateSteps guard values db).2

variable {app : App} {r : Request}

/-- The program makes writes of `r` only, and returns under `Q`. -/
abbrev Writes {α : Type} (app : App) (r : Request) (p : Handler α) (Q : α → Prop) : Prop :=
  Spec (fun _ _ => True) (Write app r) (fun a _ => Q a) p fun _ => True

theorem writes_read {β : Type} {g : Db → β} {Q : β → Prop} (h : ∀ db, Q (g db)) :
    Writes app r (read g) Q :=
  Spec.read (fun _ _ => .read) fun db _ =>
    ⟨fun _ => Q (g db), Stable.const _, h db, fun _ h => h⟩

theorem writes_atomic {β : Type} {f : Db → β × Db} (h : ∀ db, Write app r db (f db).2) :
    Writes app r (atomic f) fun _ => True :=
  Acts.atomic h

theorem Writes.bind {α β : Type} {p : Handler α} {g : α → Handler β} {Q : α → Prop} {Q' : β → Prop}
    (hp : Writes app r p Q) (hg : ∀ a, Q a → Writes app r (g a) Q') :
    Writes app r (p.bind g) Q' :=
  Spec.bind hp fun a => Spec.assume (fun _ h => h) fun h => Spec.pre (hg a h) fun _ _ => trivial

theorem writes_ret {α : Type} {a : α} {Q : α → Prop} (h : Q a) : Writes app r (.ret a) Q :=
  fun _ _ => h

/-- What a lookup found has the key it was looked up by. -/
theorem writes_get {ρ : Type} [HasKey ρ String] (table : Db → Table ρ) (k : String) :
    Writes app r (read fun db => (table db).get? k) fun o => ∀ x, o = some x → HasKey.key x = k :=
  writes_read fun _ _ hx => Table.key_of_get? hx

/-! ## Nodes -/

theorem refreshNode_writes (nodeId : String) : Writes app r (refreshNode nodeId) fun _ => True :=
  Writes.bind (writes_get Db.nodes nodeId) fun o _ => by
    cases o with
    | none => trivial
    | some node => exact writes_ret trivial

theorem getNode_writes (nodeId : String) : Writes app r (getNode nodeId) fun n => n.id = nodeId :=
  Writes.bind (writes_get Db.nodes nodeId) fun o ho => by
    cases o with
    | none => trivial
    | some node => exact writes_ret (ho node rfl)

theorem validateSharedRoot_workerRoot (fs : FileSystem) (workerRoot controllerRoot : String) :
    (validateSharedRoot fs workerRoot controllerRoot).workerRoot = fs.resolve workerRoot := by
  unfold validateSharedRoot
  dsimp only
  split_ifs <;> rfl

theorem validateSharedRoot_same {fs : FileSystem} {workerRoot controllerRoot : String}
    (h : (validateSharedRoot fs workerRoot controllerRoot).ok) :
    fs.resolve workerRoot = fs.resolve controllerRoot := by
  unfold validateSharedRoot at h
  dsimp only at h
  split_ifs at h with _ _ hsame
  exact not_not.1 hsame

theorem registerNode_writes {body : NodeRegisterRequest} (hr : r.call = .registerNode body) :
    Writes app r (registerNode app r.ambient body) fun _ => True := by
  unfold registerNode
  dsimp only
  rw [validateSharedRoot_workerRoot]
  split_ifs with hok
  · trivial
  have hreg : Registers app r body (r.ambient.fs.resolve body.sharedRoot) :=
    ⟨hr, rfl, (validateSharedRoot_same (by simpa using hok)).symm⟩
  refine Writes.bind (writes_get Db.nodes body.nodeId) fun o ho => ?_
  cases o with
  | some node =>
    exact Writes.bind (writes_atomic fun _ => .registered hreg (ho node rfl)) fun _ _ =>
      refreshNode_writes _
  | none =>
    refine Writes.bind (writes_atomic fun db => ?_) fun inserted _ => ?_
    · split
      · exact .read
      · rename_i nodes hins
        exact .inserted hreg hins
    · split_ifs
      · trivial
      · exact refreshNode_writes _

theorem heartbeatNode_writes {nodeId : String} {body : NodeHeartbeatRequest}
    (hr : r.call = .heartbeatNode nodeId body) :
    Writes app r (heartbeatNode app r.ambient nodeId body) fun _ => True := by
  refine Writes.bind (Q := fun _ => body.invalid = []) ?_ fun _ hvalid => ?_
  · unfold requireValid
    split_ifs with hvalid
    exacts [writes_ret hvalid, trivial]
  refine Writes.bind (getNode_writes nodeId) fun node hid => ?_
  refine Writes.bind (writes_atomic fun _ => .heartbeat hr hvalid hid) fun o _ => ?_
  cases o with
  | error => trivial
  | ok => exact refreshNode_writes _

/-! ## Jobs -/

theorem createJob_writes {body : JobCreateRequest} (hr : r.call = .createJob body) :
    Writes app r (createJob app r.ambient body) fun _ => True := by
  unfold createJob
  split_ifs
  · trivial
  split
  · trivial
  · rename_i inputFile hin
    dsimp only
    split
    · trivial
    · rename_i outputDir hout
      refine Writes.bind (writes_atomic fun db => ?_) fun inserted _ => ?_
      · unfold insertJob
        split
        · rename_i hj hp hs
          exact .planned ⟨hr, hin, hout⟩ hj hp hs
        · exact .read
      · split_ifs
        · trivial
        · refine Writes.bind (writes_read (Q := fun _ => True) fun _ => trivial) fun o _ => ?_
          cases o with
          | none => trivial
          | some job => exact writes_ret trivial

theorem commitJob_writes {old new : Job} (h : old.SameOrder new) :
    Writes app r (commitJob old new) fun _ => True :=
  writes_atomic fun _ => .job h

theorem Job.sameOrder_afterStepCompletion (job : Job) (steps : List Step) (clock : ℕ → Instant) :
    job.SameOrder (job.afterStepCompletion steps clock) := by
  unfold Job.afterStepCompletion
  dsimp only
  split_ifs <;> rfl

theorem markJobRunning_writes (clock : ℕ → Instant) (jobId : String) :
    Writes app r (markJobRunning clock jobId) fun _ => True :=
  Writes.bind (writes_get Db.jobs jobId) fun o _ => by
    cases o with
    | none => exact writes_ret trivial
    | some job =>
      dsimp only
      split_ifs
      exacts [commitJob_writes rfl, writes_ret trivial]

theorem markJobAfterStepCompletion_writes (clock : ℕ → Instant) (jobId : String) :
    Writes app r (markJobAfterStepCompletion clock jobId) fun _ => True :=
  Writes.bind (writes_get Db.jobs jobId) fun o _ => by
    cases o with
    | none => exact writes_ret trivial
    | some job =>
      exact Writes.bind (writes_read (Q := fun _ => True) fun _ => trivial) fun steps _ =>
        commitJob_writes (job.sameOrder_afterStepCompletion steps clock)

theorem markJobFailed_writes (clock : ℕ → Instant) (jobId errorMessage : String) :
    Writes app r (markJobFailed clock jobId errorMessage) fun _ => True :=
  Writes.bind (writes_get Db.jobs jobId) fun o _ => by
    cases o with
    | none => exact writes_ret trivial
    | some job => exact commitJob_writes rfl

/-! ## Steps -/

/-- What reads the database only writes nothing. -/
theorem loadOwnedStep_writes (stepId workerNodeId : String) (assignmentEpoch : ℤ) :
    Writes app r (loadOwnedStep stepId workerNodeId assignmentEpoch) fun _ => True := by
  refine Writes.bind (Q := fun _ => True) (Writes.bind (writes_get Db.steps stepId) fun o _ => ?_)
    fun step _ => ?_
  · cases o with
    | none => trivial
    | some step => exact writes_ret trivial
  refine Writes.bind (Q := fun _ => True) ?_ fun _ _ =>
    Writes.bind (Q := fun _ => True) ?_ fun _ _ => writes_ret trivial
  · unfold validateWorkerOwnership
    split_ifs
    exacts [trivial, writes_ret trivial]
  · unfold validateEpochOr409
    cases validateAssignmentEpoch step assignmentEpoch with
    | error => trivial
    | ok => exact writes_ret trivial

theorem transitionOr409_writes (step : Step) (target : StepStatus) :
    Writes app r (transitionOr409 step target) fun _ => True := by
  unfold transitionOr409
  cases transitionStep step.status target with
  | error => trivial
  | ok => exact writes_ret trivial

theorem persistStepUpdateOr409_writes (step : Step) (n : String) (from_ : List StepStatus)
    (values : List StepValue) (u : Bool) :
    Writes app r (persistStepUpdateOr409 step n from_ values u) fun _ => True := by
  refine Writes.bind (writes_atomic fun _ => .steps _ _) fun rowcount _ => ?_
  split_ifs
  · trivial
  refine Writes.bind (writes_get Db.steps step.id) fun o _ => ?_
  cases o with
  | none => trivial
  | some x => exact writes_ret trivial

theorem claimNext_writes (env : Ambient) (n : String) (body : StepClaimNextRequest) :
    Writes app r (claimNext env n body) fun _ => True := by
  unfold claimNext
  split_ifs
  · trivial
  refine Writes.bind (writes_read (Q := fun _ => True) fun _ => trivial) fun o _ => ?_
  cases o with
  | none => exact writes_ret trivial
  | some step =>
    refine Writes.bind (writes_atomic fun _ => .steps _ _) fun rowcount _ => ?_
    split_ifs
    exacts [writes_ret trivial, writes_read fun _ => trivial]

/-! ## The Controller -/

/-- **Every action of a request is one of its writes.** -/
theorem handle_writes (app : App) (r : Request) : Acts (Write app r) (app.handle r) := by
  have hnode : ∀ {α : Type} {p : String → Handler α}, (∀ n, Writes app r (p n) fun _ => True) →
      Writes app r (requireWorkerNodeId r.headers >>= p) fun _ => True := by
    intro α p hp
    unfold requireWorkerNodeId
    split
    · trivial
    · split_ifs
      exacts [trivial, hp _]
  have hret : ∀ {α β : Type} {p : Handler α} {Q : α → Prop} (f : α → β), Writes app r p Q →
      Writes app r (p >>= fun a => pure (f a)) fun _ => True :=
    fun f hp => Writes.bind hp fun _ _ => writes_ret trivial
  have hget : ∀ {β : Type} (g : Db → β), Writes app r (read g) fun _ => True :=
    fun g => writes_read fun _ => trivial
  unfold App.handle
  refine Writes.bind (Q := fun _ => True) ?_ fun _ _ => ?_
  · unfold requireWorkerAuth
    dsimp only
    split
    exacts [trivial, trivial, writes_ret trivial]
  cases hc : r.call with
  | listNodes | listJobs => exact hret _ (hget _)
  | getNode nodeId => exact hret _ (getNode_writes nodeId)
  | getJob jobId =>
    refine hret _ (Q := fun _ => True) (Writes.bind (hget _) fun o _ => ?_)
    cases o with
    | none => trivial
    | some job => exact writes_ret trivial
  | registerNode => exact hret _ (registerNode_writes hc)
  | heartbeatNode => exact hret _ (heartbeatNode_writes hc)
  | createJob => exact hret _ (createJob_writes hc)
  | claimNext body =>
    refine hnode fun n => Writes.bind (claimNext_writes r.ambient n body) fun o _ => ?_
    cases o <;> exact writes_ret trivial
  | startStep stepId body =>
    refine hnode fun n => hret _ (Q := fun _ => True) ?_
    exact Writes.bind (loadOwnedStep_writes _ _ _) fun step _ =>
      Writes.bind (transitionOr409_writes _ _) fun _ _ =>
      Writes.bind (persistStepUpdateOr409_writes _ _ _ _ _) fun _ _ =>
      Writes.bind (markJobRunning_writes _ _) fun _ _ => writes_ret trivial
  | progressStep stepId body =>
    refine hnode fun n => hret _ (Q := fun _ => True) ?_
    refine Writes.bind (Q := fun _ => True) ?_ fun _ _ =>
      Writes.bind (loadOwnedStep_writes _ _ _) fun step _ => persistStepUpdateOr409_writes _ _ _ _ _
    unfold requireValid
    split_ifs
    exacts [writes_ret trivial, trivial]
  | completeStep stepId body =>
    refine hnode fun n => hret _ (Q := fun _ => True) ?_
    exact Writes.bind (loadOwnedStep_writes _ _ _) fun step _ =>
      Writes.bind (transitionOr409_writes _ _) fun _ _ =>
      Writes.bind (persistStepUpdateOr409_writes _ _ _ _ _) fun _ _ =>
      Writes.bind (markJobAfterStepCompletion_writes _ _) fun _ _ => writes_ret trivial
  | failStep stepId body =>
    refine hnode fun n => hret _ (Q := fun _ => True) ?_
    exact Writes.bind (loadOwnedStep_writes _ _ _) fun step _ =>
      Writes.bind (transitionOr409_writes _ _) fun _ _ =>
      Writes.bind (persistStepUpdateOr409_writes _ _ _ _ _) fun _ _ =>
      Writes.bind (markJobFailed_writes _ _ _) fun _ _ => writes_ret trivial
  | claimStep stepId body =>
    refine hnode fun n => hret _ (Q := fun _ => True) ?_
    refine Writes.bind (loadOwnedStep_writes _ _ _) fun step _ => ?_
    split_ifs
    exacts [trivial, persistStepUpdateOr409_writes _ _ _ _ _]

/-- **A transition of a run** leaves the database alone, makes a write of its request, or
    is a recovery. -/
theorem App.Run.write {db₀ : Db} {tr : List (Trans app.controller)}
    {c : Conf Db HttpError Response Request} (h : app.Run db₀ tr c) {t : Trans app.controller}
    (ht : t ∈ tr) : t.post.db = t.pre.db ∨
      (∃ i r, t.By i r ∧ Write app r t.pre.db t.post.db) ∨
      ∃ stepId, t.act = .env stepId ∧ t.post.db = recoverStep stepId t.pre.db := by
  have hS : app.controller.Sound (fun _ _ => True) (Write app) fun _ => True :=
    ⟨Stable.const True, handle_writes app, fun _ _ _ _ _ => trivial, fun _ _ _ => trivial⟩
  exact hS.cases trivial h ht

end MediaOrchard
