/-
  One Worker and its Controller work the backlog off.

  * `Step.Waits`, `Concludes`: a step that waits to be claimed by the Worker, and a step
    that has ended, with its job;
  * `Stock n held db`: every step waits or has ended, but for the one that the Worker holds;
  * `Grows`: what the requests of clients do;
  * `heartbeat_served`, `claimNext_served`, `lifecycle_served`: the requests of the Worker;
  * `Consumes`: what a claimed step does to the backlog (`ends_executeClaimedStep`);
  * `ends_pollLoop`, `ends_runWorker`: the loop of the Worker, and its sessions;
  * `backlog_drained`: what a session leaves behind.
-/
import MediaOrchard.Worker.Deployment
import MediaOrchard.Proof.Creation
import MediaOrchard.Proof.Pass
import MediaOrchard.Proof.Reclaim

namespace MediaOrchard

open Keyed Interleave Prog Effects

/-! ## Steps at rest -/

/-- The step asks nothing of its node. -/
structure Step.Plain (x : Step) : Prop where
  id : x.id ≠ ""
  toolName : x.toolName = "video_to_subtitle_pipeline"
  constraints : Dict.get? x.inputJson "constraints" = none
  runtime : Dict.get? x.inputJson "estimated_runtime_minutes" = none

/-- The step is to be claimed. -/
def Step.pends (x : Step) : Bool :=
  (x.status = .queued ∨ x.status = .assigned) ∧ x.claimedAt = none

/-- The steps that are to be claimed. -/
def Db.backlog (db : Db) : ℕ := db.steps.count Step.pends

/-- The step waits to be claimed by the Worker `n`. -/
structure Step.Waits (n : String) (x : Step) : Prop where
  plain : x.Plain
  place : x.status = .queued ∨ x.status = .assigned ∧ x.assignedNodeId = some n
  unclaimed : x.claimedAt = none

/-- The step has ended, and so has its job. -/
inductive Concludes (x : Step) (j : Job) : Prop
  | completed (hx : x.status = .completed) (hj : j.status = .completed) (hp : j.progress = 100)
  | failed (hx : x.status = .failed) (hj : j.status = .failed)
      (he : x.errorMessage.isSome ∧ j.errorMessage = x.errorMessage)

/-- The step waits with a queued job, or both have ended. -/
def Rests (n : String) (x : Step) (j : Job) : Prop :=
  x.Waits n ∧ j.status = .queued ∨ Concludes x j

/-- The row of a step with that of its job. -/
structure Db.Has (db : Db) (x : Step) (j : Job) : Prop where
  step : db.steps.get? x.id = some x
  job : db.jobs.get? x.jobId = some j

/-- Every step rests, but for the one that the Worker holds; no two steps are of one job. -/
structure Stock (n : String) (held : Option (Step × Job)) (db : Db) : Prop where
  rows : ∀ x ∈ db.steps.rows, ∃ j, db.Has x j ∧ (Rests n x j ∨ held = some (x, j))
  has : ∀ p ∈ held, db.Has p.1 p.2
  alone : ∀ x ∈ db.steps.rows, ∀ y ∈ db.steps.rows, x.jobId = y.jobId → x = y

theorem Step.Waits.pends {n : String} {x : Step} (h : x.Waits n) : x.pends := by
  obtain ⟨-, hplace, hnone⟩ := h
  rcases hplace with hs | ⟨hs, -⟩ <;> simp [Step.pends, hs, hnone]

theorem Concludes.not_pends {x : Step} {j : Job} (h : Concludes x j) : x.pends = false := by
  cases h with
  | completed hx | failed hx => simp [Step.pends, hx]

theorem stock_empty (n : String) : Stock n none Db.empty where
  rows x hx := absurd hx List.not_mem_nil
  has p hp := absurd hp (by simp)
  alone x hx := absurd hx List.not_mem_nil

/-! ## Requests of clients -/

/-- What requests of clients do: steps and their jobs are added. -/
structure Grows (db db' : Db) : Prop where
  kept : ∀ x j, db.Has x j → db'.Has x j
  nodes : db'.nodes = db.nodes
  length : db.steps.rows.length ≤ db'.steps.rows.length
  count : db'.backlog + db.steps.rows.length = db.backlog + db'.steps.rows.length

theorem Grows.refl (db : Db) : Grows db db := ⟨fun _ _ h => h, rfl, le_rfl, rfl⟩

theorem Grows.trans {a b c : Db} (h : Grows a b) (h' : Grows b c) : Grows a c where
  kept x j hx := h'.kept x j (h.kept x j hx)
  nodes := h'.nodes.trans h.nodes
  length := h.length.trans h'.length
  count := by have h₁ := h.count; have h₂ := h'.count; omega

section
variable {D : Deployment} {app : App} {n : String} {held : Option (Step × Job)} {db db' : Db}

theorem newRows_waits (app : App) (env : Ambient) (body : JobCreateRequest)
    (inputFile outputDir n : String) :
    (newRows app env body inputFile outputDir).2.2.Waits n := by
  refine ⟨⟨?_, rfl, rfl, rfl⟩, Or.inl rfl, rfl⟩
  intro h
  have h := congrArg String.toList h
  simp [newRows] at h

/-- The rows of a job are added to the stock. -/
theorem Stock.create {env : Ambient} {body : JobCreateRequest} {inputFile outputDir : String}
    {jobs : Table Job} {plans : Table Plan} {steps : Table Step} (h : Stock n held db)
    (hj : db.jobs.insert? (newRows app env body inputFile outputDir).1 = some jobs)
    (hs : db.steps.insert? (newRows app env body inputFile outputDir).2.2 = some steps) :
    Stock n held { db with jobs := jobs, plans := plans, steps := steps } ∧
      Grows db { db with jobs := jobs, plans := plans, steps := steps } := by
  have hwaits := newRows_waits app env body inputFile outputDir n
  have hjobId : (newRows app env body inputFile outputDir).2.2.jobId =
      (newRows app env body inputFile outputDir).1.id := rfl
  have hqueued : (newRows app env body inputFile outputDir).1.status = .queued := rfl
  generalize (newRows app env body inputFile outputDir).1 = job at hj hjobId hqueued
  generalize (newRows app env body inputFile outputDir).2.2 = step at hs hwaits hjobId
  obtain ⟨hnojob, -⟩ := Table.insert?_eq_some hj
  obtain ⟨hnostep, hrows⟩ := Table.insert?_eq_some hs
  have hkept : ∀ x j, db.Has x j →
      Db.Has { db with jobs := jobs, plans := plans, steps := steps } x j := by
    intro x j hx
    refine ⟨?_, ?_⟩
    · rw [Table.get?_insert hs, if_neg, hx.step]
      intro hid
      rw [show HasKey.key step = x.id from hid, hx.step] at hnostep
      cases hnostep
    · rw [Table.get?_insert hj, if_neg, hx.job]
      intro hid
      rw [show HasKey.key job = x.jobId from hid, hx.job] at hnojob
      cases hnojob
  have hnew : Db.Has { db with jobs := jobs, plans := plans, steps := steps } step job := by
    refine ⟨?_, ?_⟩
    · rw [Table.get?_insert hs, if_pos (Step.key_eq step)]
    · rw [Table.get?_insert hj, if_pos (by simp [hjobId])]
  have hother : ∀ x ∈ db.steps.rows, x.jobId ≠ step.jobId := by
    intro x hx hid
    obtain ⟨j, hhas, -⟩ := h.rows x hx
    have hjob := hhas.job
    rw [hid, hjobId, show db.jobs.get? job.id = none from hnojob] at hjob
    cases hjob
  refine ⟨⟨?_, fun p hp => hkept _ _ (h.has p hp), ?_⟩, ⟨hkept, rfl, ?_, ?_⟩⟩
  · intro x hx
    rw [hrows, List.mem_append, List.mem_singleton] at hx
    rcases hx with hx | rfl
    · obtain ⟨j, hhas, hrests⟩ := h.rows x hx
      exact ⟨j, hkept x j hhas, hrests⟩
    · exact ⟨job, hnew, Or.inl (Or.inl ⟨hwaits, hqueued⟩)⟩
  · intro x hx y hy hid
    rw [hrows, List.mem_append, List.mem_singleton] at hx hy
    rcases hx with hx | rfl <;> rcases hy with hy | rfl
    · exact h.alone x hx y hy hid
    · exact absurd hid (hother x hx)
    · exact absurd hid.symm (hother y hy)
    · rfl
  · rw [hrows, List.length_append]
    omega
  · unfold Db.backlog Table.count
    rw [hrows, List.countP_append, List.length_append, List.countP_singleton, if_pos hwaits.pends,
      List.length_singleton]
    omega

/-- **A request of a client** keeps the stock. -/
theorem Stock.submits (h : Stock n held db) (hd : D.Submits db db') :
    Stock n held db' ∧ Grows db db' := by
  obtain ⟨hc, -⟩ := hd
  rename_i r
  refine exec_inv (J := fun d => Stock n held d ∧ Grows db d) (fun a b ⟨hs, hg⟩ he => ?_)
    ⟨h, .refl db⟩
  cases he with
  | read => exact ⟨hs, hg⟩
  | create _ hj hs' =>
    obtain ⟨hstock, hgrows⟩ := hs.create hj hs'
    exact ⟨hstock, hg.trans hgrows⟩
  | steps f hf hw hne =>
    -- no step is written
    have hsame : a.steps.update f hf = a.steps := by
      refine Table.update_of_fixed fun x hx => ?_
      rcases hw x hx with he | hw
      · exact he
      · generalize f x = x' at hw
        cases hw with
        | assign hr | claimNext hr | claim hr | start hr | progress hr | complete hr | fail hr =>
          rw [hr] at hc
          cases hc
    rw [hsame]
    exact ⟨hs, hg⟩
  | heartbeat _ _ _ _ hr | register _ hr =>
    rw [hr] at hc
    cases hc
  | job hw =>
    cases hw with
    | running hr | completed hr | partly hr | failed hr =>
      rw [hr] at hc
      cases hc

theorem Stock.arrives (h : Stock n held db) (hd : D.Arrives db db') :
    Stock n held db' ∧ Grows db db' := by
  induction hd with
  | refl => exact ⟨h, .refl db⟩
  | tail _ hsub ih =>
    obtain ⟨hstock, hgrows⟩ := ih.1.submits hsub
    exact ⟨hstock, ih.2.trans hgrows⟩

end

/-! ## Writing the row of a step -/

section
variable {n : String} {held : Option (Step × Job)} {db : Db} {x x' : Step} {j j' : Job}

/-- The other rows stay, and the row `x` becomes `x'`. -/
structure Turns (x x' : Step) (db db' : Db) : Prop where
  kept : ∀ y k, db.Has y k → y.id ≠ x.id → db'.Has y k
  nodes : db'.nodes = db.nodes
  length : db'.steps.rows.length = db.steps.rows.length
  count : db'.backlog + x.pends.toNat = db.backlog + x'.pends.toNat

theorem count_setStep (hx : db.steps.get? x.id = some x) (hid : x'.id = x.id) (p : Step → Bool) :
    (db.setStep x').steps.count p + (p x).toNat = db.steps.count p + (p x').toNat := by
  obtain ⟨before, after, hrows⟩ := List.append_of_mem (Table.mem_of_get? hx)
  have hnodup := db.steps.nodup
  rw [hrows, List.map_append, List.map_cons] at hnodup
  have hother : ∀ y, y ∈ before ∨ y ∈ after → y.id ≠ x'.id := by
    rintro y hy hyx
    have hmem : x.id ∈ before.map Step.id ∨ x.id ∈ after.map Step.id := by
      rw [← hid, ← hyx]
      exact hy.imp (List.mem_map_of_mem (f := Step.id)) (List.mem_map_of_mem (f := Step.id))
    rcases hmem with hmem | hmem
    · exact (List.nodup_append.1 hnodup).2.2 _ hmem _ List.mem_cons_self rfl
    · exact (List.nodup_cons.1 (List.nodup_append.1 hnodup).2.1).1 hmem
  have hfix : ∀ l : List Step, (∀ y ∈ l, y.id ≠ x'.id) →
      l.map (fun y => if y.id = x'.id then x' else y) = l := fun l hl =>
    (List.map_congr_left fun y hy => if_neg (hl y hy)).trans (List.map_id _)
  unfold Table.count Db.setStep
  rw [Table.rows_update, hrows, List.map_append, List.map_cons, if_pos hid.symm,
    hfix before fun y hy => hother y (Or.inl hy), hfix after fun y hy => hother y (Or.inr hy),
    List.countP_append, List.countP_cons, List.countP_append, List.countP_cons]
  cases p x <;> cases p x' <;> simp <;> omega

/-- **The Worker takes a step, or turns the one it holds.** -/
theorem Stock.turn (h : Stock n held db) (hheld : ∀ p ∈ held, p = (x, j)) (hx : db.Has x j)
    (hid : x'.id = x.id) (hjobId : x'.jobId = x.jobId) (f : Job → Job) (hf : ∀ j, (f j).id = j.id)
    (hj : f j = j') :
    Stock n (some (x', j')) ((db.setStep x').mapJob x.jobId f hf) ∧
      Turns x x' db ((db.setStep x').mapJob x.jobId f hf) := by
  have hmem : ∀ y, y ∈ ((db.setStep x').mapJob x.jobId f hf).steps.rows ↔
      y = x' ∨ y ∈ db.steps.rows ∧ y.id ≠ x.id := fun y => by
    rw [mapJob_steps]
    exact mem_setStep hx.step hid
  have hself : Db.Has ((db.setStep x').mapJob x.jobId f hf) x' j' := by
    refine ⟨?_, ?_⟩
    · rw [mapJob_steps, hid]
      exact setStep_get?_self hx.step hid
    · rw [mapJob_get?, setStep_jobs, hjobId, hx.job, Option.map_some, if_pos rfl, hj]
  have hxmem : x ∈ db.steps.rows := Table.mem_of_get? hx.step
  have hkept : ∀ y k, db.Has y k → y.id ≠ x.id →
      Db.Has ((db.setStep x').mapJob x.jobId f hf) y k := by
    intro y k hy hne
    have hymem : y ∈ db.steps.rows := Table.mem_of_get? hy.step
    refine ⟨Table.get?_of_mem ((hmem y).2 (Or.inr ⟨hymem, hne⟩)), ?_⟩
    have hjob : y.jobId ≠ x.jobId := fun he => hne (congrArg Step.id (h.alone y hymem x hxmem he))
    rw [mapJob_get?, setStep_jobs, hy.job, Option.map_some, if_neg hjob]
  refine ⟨⟨?_, ?_, ?_⟩, ⟨hkept, rfl, ?_, ?_⟩⟩
  · intro y hy
    rcases (hmem y).1 hy with rfl | ⟨hy, hne⟩
    · exact ⟨j', hself, Or.inr rfl⟩
    · obtain ⟨k, hhas, hrests⟩ := h.rows y hy
      refine ⟨k, hkept y k hhas hne, Or.inl (hrests.resolve_right fun he => hne ?_)⟩
      exact congrArg (fun p => Step.id p.1) (hheld _ he)
  · rintro p hp
    cases hp
    exact hself
  · -- the step that is written is of the same job
    intro y hy z hz hjob
    rcases (hmem y).1 hy with rfl | ⟨hold, hne⟩ <;> rcases (hmem z).1 hz with rfl | ⟨holdz, hnez⟩
    · rfl
    · exact absurd (h.alone x hxmem z holdz (hjobId.symm.trans hjob)) fun he => hnez (he ▸ rfl)
    · exact absurd (h.alone y hold x hxmem (hjob.trans hjobId)) fun he => hne (he ▸ rfl)
    · exact h.alone y hold z holdz hjob
  · rw [mapJob_steps]
    exact List.length_map _
  · exact count_setStep hx.step hid Step.pends

/-- The step that the Worker held has ended. -/
theorem Stock.release (h : Stock n (some (x, j)) db) (hrests : Rests n x j) : Stock n none db where
  rows y hy := by
    obtain ⟨k, hhas, hk⟩ := h.rows y hy
    refine ⟨k, hhas, Or.inl (hk.elim id ?_)⟩
    rintro he
    cases he
    exact hrests
  has p hp := absurd hp (by simp)
  alone := h.alone

end

/-! ## What is left alone -/

/-- Steps that have ended stay as they are; `claimed` of those that waited wait no longer, and
    what is added waits. -/
structure Consumes (claimed : ℕ) (db db' : Db) : Prop where
  kept : ∀ x j, db.Has x j → Concludes x j → db'.Has x j
  length : db.steps.rows.length ≤ db'.steps.rows.length
  count : db'.backlog + claimed + db.steps.rows.length = db.backlog + db'.steps.rows.length

theorem Consumes.refl (db : Db) : Consumes 0 db db := ⟨fun _ _ h _ => h, le_rfl, rfl⟩

theorem Consumes.trans {i k : ℕ} {a b c : Db} (h : Consumes i a b) (h' : Consumes k b c) :
    Consumes (i + k) a c where
  kept x j hx hc := h'.kept x j (h.kept x j hx hc) hc
  length := h.length.trans h'.length
  count := by have h₁ := h.count; have h₂ := h'.count; omega

theorem Grows.consumes {db db' : Db} (h : Grows db db') : Consumes 0 db db' :=
  ⟨fun x j hx _ => h.kept x j hx, h.length, h.count⟩

theorem Turns.consumes {db db' : Db} {x x' : Step} {j : Job} (h : Turns x x' db db')
    (hx : db.Has x j) (hopen : ¬ Concludes x j) {claimed : ℕ}
    (hclaimed : x'.pends.toNat + claimed = x.pends.toNat) : Consumes claimed db db' where
  kept y k hy hc := by
    refine h.kept y k hy fun hid => hopen ?_
    obtain rfl : y = x := Option.some.inj (hy.step.symm.trans (hid ▸ hx.step))
    exact Option.some.inj (hy.job.symm.trans hx.job) ▸ hc
  length := h.length.ge
  count := by have h₁ := h.count; have h₂ := h.length; omega

/-! ## Who asks -/

section
variable {D : Deployment} {h : Host} {config : WorkerLoopConfig} (str : Json → String)

/-- **The requests of the Worker pass the dependencies.** -/
theorem Deployment.Fit.auth (hfit : D.Fit h config) :
    requireWorkerAuth D.app (config.worker str).headers = .ret () := by
  have hkey := hfit.key
  simp [requireWorkerAuth, WorkerAgent.headers, WorkerLoopConfig.worker, bearerToken?_bearer, hkey]

theorem Deployment.Fit.nodeId (hfit : D.Fit h config) :
    requireWorkerNodeId (config.worker str).headers = .ret config.nodeId := by
  have hnamed := hfit.named
  simp [requireWorkerNodeId, WorkerAgent.headers, WorkerLoopConfig.worker, hnamed]

end

/-! ## The node of the Worker -/

/-- The only node is the Worker's, online and on the Controller's root. -/
structure Hosts (app : App) (n : String) (db : Db) (node : Node) : Prop where
  rows : db.nodes.rows = [node]
  id : node.id = n
  online : node.status = .online
  root : node.sharedRoot = app.sharedRoot.str

/-- No other node is registered. -/
def Lone (app : App) (n : String) (db : Db) : Prop :=
  db.nodes = .empty ∨ ∃ node, Hosts app n db node

section
variable {app : App} {n : String} {db : Db} {node : Node}

theorem Hosts.get? (h : Hosts app n db node) : db.nodes.get? n = some node :=
  Table.get?_eq_some.2 ⟨by rw [h.rows]; exact List.mem_singleton_self node, h.id⟩

theorem Hosts.congr {db' : Db} (h : Hosts app n db node) (hn : db'.nodes = db.nodes) :
    Hosts app n db' node := ⟨hn ▸ h.rows, h.id, h.online, h.root⟩

theorem validateSharedRoot_ok {fs : FileSystem} {workerRoot : String} {root : ResolvedPath}
    (hroot : fs.resolve root.str = root) (hok : (validateSharedRoot fs workerRoot root.str).ok) :
    (validateSharedRoot fs workerRoot root.str).workerRoot = root := by
  unfold validateSharedRoot at hok ⊢
  dsimp only at hok ⊢
  split_ifs at hok ⊢ with h₁ h₂ h₃
  exact (not_not.1 h₃).trans hroot

theorem refreshNode_exec (h : Hosts app n db node) : (refreshNode n).exec db = (.ok node, db) := by
  simp [refreshNode, exec_bind, h.get?]

/-- The first registration. -/
theorem insertNode_exec (hnone : db.nodes = .empty) (hid : node.id = n) (hs : node.status = .online)
    (hr : node.sharedRoot = app.sharedRoot.str) :
    ∃ nodes, (insertNode node).exec db = (.ok true, { db with nodes := nodes }) ∧
      Hosts app n { db with nodes := nodes } node := by
  have hinsert : ∃ nodes, db.nodes.insert? node = some nodes := by
    rw [hnone]
    exact ⟨_, dif_neg List.not_mem_nil⟩
  obtain ⟨nodes, hinsert⟩ := hinsert
  have hrows : nodes.rows = [node] := by
    rw [(Table.insert?_eq_some hinsert).2, hnone]
    rfl
  refine ⟨nodes, ?_, ⟨hrows, hid, hs, hr⟩⟩
  simp [insertNode, hinsert]

/-- A registration of the node that is there. -/
theorem commitNode_exec {node' : Node} (h : Hosts app n db node) (hid : node'.id = node.id)
    (hs : node'.status = .online) (hr : node'.sharedRoot = app.sharedRoot.str) :
    ∃ nodes, (commitNode node node').exec db = (.ok (), { db with nodes := nodes }) ∧
      Hosts app n { db with nodes := nodes } node' := by
  refine ⟨_, rfl, ⟨?_, hid.trans h.id, hs, hr⟩⟩
  show db.nodes.rows.map _ = _
  rw [h.rows, List.map_singleton, if_pos rfl, Node.flush_loaded hid]

/-- **Registration**: the node is there, online and on the Controller's root. -/
theorem registerNode_served {env : Ambient} {headers : Headers} (body : NodeRegisterRequest)
    (hauth : requireWorkerAuth app headers = .ret ())
    (hroot : env.fs.resolve app.sharedRoot.str = app.sharedRoot)
    (hok : (validateSharedRoot env.fs body.sharedRoot app.sharedRoot.str).ok)
    (hlone : Lone app body.nodeId db) :
    ∃ node nodes, (app.handle ⟨.registerNode body, headers, env⟩).exec db =
      (.ok (.node node), { db with nodes := nodes }) ∧
      Hosts app body.nodeId { db with nodes := nodes } node := by
  have hworker := validateSharedRoot_ok hroot hok
  unfold App.handle registerNode
  rw [hauth]
  simp only [hok, Bool.not_true, Bool.false_eq_true, if_false, hworker, bind_eq, ret_bind,
    exec_bind, exec_read]
  rcases hlone with hnone | ⟨node, hhosts⟩
  · have hget : db.nodes.get? body.nodeId = none := by rw [hnone]; rfl
    simp only [hget]
    generalize hnode : Node.registered _ body _ _ _ = node
    obtain ⟨nodes, hexec, hhosts⟩ := insertNode_exec hnone (hnode ▸ rfl : node.id = body.nodeId)
      (hnode ▸ rfl) (hnode ▸ rfl : node.sharedRoot = app.sharedRoot.str)
    refine ⟨node, nodes, ?_, hhosts⟩
    rw [exec_bind, hexec]
    simp [refreshNode_exec hhosts]
  · simp only [hhosts.get?]
    generalize hnode : Node.registered node body _ _ _ = node'
    obtain ⟨nodes, hexec, hhosts'⟩ := commitNode_exec hhosts (hnode ▸ rfl : node'.id = node.id)
      (hnode ▸ rfl) (hnode ▸ rfl)
    refine ⟨node', nodes, ?_, hhosts'⟩
    rw [exec_bind, hexec]
    simp [refreshNode_exec hhosts']

end

/-! ## A pass over the steps of a lone node -/

/-- The node has just reported, within the limits, and has a priority that is a float. -/
structure Node.Fresh (config : SchedulerConfig) (now : Instant) (node : Node) : Prop where
  online : node.status = .online
  heartbeat : node.lastHeartbeatAt = some now
  root : node.sharedRoot = config.sharedRoot
  cpu : node.cpuPercent ≤ config.maxCpuPercent
  memory : node.memoryPercent ≤ config.maxMemoryPercent
  disk : config.minFreeDiskGb ≤ node.freeDiskGb
  thermal : node.thermalState ∉ ["serious", "critical"]
  priority : |nodePriority node config| < 2 ^ 1024 - 2 ^ 970

section
variable {config : SchedulerConfig} {now : Instant} {node : Node} {x : Step}

theorem Node.Fresh.charge (h : node.Fresh config now) (x : Step) :
    (node.charge x).Fresh config now :=
  ⟨h.online, h.heartbeat, h.root, h.cpu, h.memory, h.disk, h.thermal, h.priority⟩

theorem Step.Plain.wellFormed (hx : x.Plain) : x.WellFormed where
  constraints v hv := by rw [hx.constraints] at hv; cases hv
  runtime v hv := by rw [hx.runtime] at hv; cases hv

/-- **A node that has just reported is eligible for a plain step.** -/
theorem Node.Fresh.eligible (h : node.Fresh config now) (htimeout : 0 ≤ config.heartbeatTimeoutSeconds)
    (hruntime : 0 ≤ config.maxRuntimeOnBatteryMinutes) (hx : x.Plain) :
    Eligible x node config now := by
  have havoid : avoidNodes x = .ok (.arr []) := by
    have hconstraints : stepConstraints x = .obj [] := by
      simp [stepConstraints, Dict.getD, hx.constraints]
    simp [avoidNodes, hconstraints, Dict.getD, Dict.get?]
  have hestimate : estimatedRuntimeMinutes x = .ok (.fin 0) := by
    simp [estimatedRuntimeMinutes, Dict.getD, hx.runtime, Json.floatOr0, Json.truthy]
  refine eligible_iff.2 ⟨⟨h.online, ?_, h.root, h.cpu, h.memory, h.disk, h.thermal,
    ⟨_, havoid, rfl⟩, ?_⟩, ⟨fun hw => ?_, fun hf => ?_⟩⟩
  · have hlimit : 0 ≤ config.heartbeatTimeoutSeconds * 1000000 := by omega
    simpa [heartbeatExpired, h.heartbeat] using hlimit
  · have hlimit : (0 : ℚ) ≤ config.maxRuntimeOnBatteryMinutes := by exact_mod_cast hruntime
    have hgt : (PyFloat.fin 0).gt config.maxRuntimeOnBatteryMinutes = false := by
      simpa [PyFloat.gt] using hlimit
    unfold batteryBlocked
    rw [hestimate, Except.map, hgt]
    split_ifs <;> rfl
  · simp [isWhisperStep, hx.toolName] at hw
  · simp [isFfmpegStep, hx.toolName, List.isPrefixOf] at hf

/-- **A pass assigns every plain step to the only node**, which it charges. -/
theorem scheduleLoop_lone (htimeout : 0 ≤ config.heartbeatTimeoutSeconds)
    (hruntime : 0 ≤ config.maxRuntimeOnBatteryMinutes) {steps : List Step}
    (hsteps : ∀ x ∈ steps, x.status = .queued ∧ x.Plain) (hnode : node.Fresh config now) :
    ∃ node' : Node, node'.Fresh config now ∧ node'.id = node.id ∧
      scheduleLoop priorityFloat config now steps [node] =
        .ok (steps.map fun x => x.assigned node.id now, [node']) := by
  induction steps generalizing node with
  | nil => exact ⟨node, hnode, rfl, rfl⟩
  | cons x rest ih =>
    obtain ⟨hq, hplain⟩ := hsteps x List.mem_cons_self
    have helig := hnode.eligible htimeout hruntime hplain
    have hconsidered : Considered priorityFloat x config now node := by
      refine (considered_priorityFloat hplain.wellFormed.wellTyped node).2
        ⟨fun _ => hnode.priority, fun _ herror => ?_⟩
      obtain ⟨estimate, hestimate⟩ := hplain.wellFormed.estimatedRuntimeMinutes_ok
      cases hestimate.symm.trans herror
    obtain ⟨d, hd⟩ := selectNodeForStep_isOk.2 fun m (hm : m ∈ [node]) => by
      obtain rfl := List.mem_singleton.1 hm
      exact hconsidered
    have hsel : d.selectedNode = some node := by
      cases hsel : d.selectedNode with
      | none => exact absurd helig ((selectNodeForStep_none hd).1 hsel node List.mem_cons_self)
      | some m => rw [List.mem_singleton.1 (selectNodeForStep_selected hd hsel).1]
    have hassign := assignBestNode_some hq hd hsel
    rw [chargeNode, List.map_singleton, if_pos rfl] at hassign
    obtain ⟨node', hnode', hid, hrest⟩ :=
      ih (fun y hy => hsteps y (List.mem_cons_of_mem _ hy)) (hnode.charge x)
    refine ⟨node', hnode', hid, ?_⟩
    unfold scheduleLoop
    rw [hassign]
    simp only [hrest]
    rfl

end

/-! ## A heartbeat -/

section
variable {D : Deployment} {app : App} {n : String} {db : Db} {node : Node} {now : Instant}

/-- The row after a pass that assigns every queued step. -/
def Step.scheduled (n : String) (now : Instant) (x : Step) : Step :=
  if x.status = .queued then x.assigned n now else x

theorem Step.scheduled_id (n : String) (now : Instant) (x : Step) :
    (x.scheduled n now).id = x.id := by
  unfold Step.scheduled
  split_ifs <;> rfl

theorem Step.scheduled_jobId (n : String) (now : Instant) (x : Step) :
    (x.scheduled n now).jobId = x.jobId := by
  unfold Step.scheduled
  split_ifs <;> rfl

theorem flushStep_assigned {x : Step} (hx : x ∈ db.steps.rows) :
    flushStep ((queuedSteps db).map fun y => y.assigned n now) x = x.scheduled n now := by
  have huniq : ∀ y ∈ queuedSteps db, y.id = x.id → y = x := fun y hy hid =>
    Table.eq_of_key (mem_queuedSteps.1 hy).1 hx hid
  unfold flushStep Step.scheduled
  rw [List.find?_map]
  cases hfind : (queuedSteps db).find? _ with
  | none =>
    rw [if_neg fun hq => ?_]
    · rfl
    · have hnot := List.find?_eq_none.1 hfind x (mem_queuedSteps.2 ⟨hx, hq⟩)
      simp [Step.assigned] at hnot
  | some y =>
    have hy := List.mem_of_find?_eq_some hfind
    obtain rfl := huniq y hy (by simpa [Step.assigned] using List.find?_some hfind)
    rw [if_pos (mem_queuedSteps.1 hy).2]
    rfl

/-- **The commit of a heartbeat** assigns every queued step to the only node. -/
theorem heartbeatCommit_lone {own : Node} (h : Hosts app n db node) (hid : own.id = node.id)
    (hown : own.Fresh app.schedulerConfig now)
    (hplain : ∀ x ∈ db.steps.rows, x.status = .queued → x.Plain) :
    ∃ nodes node', heartbeatCommit app now node own db = (.ok (), { db with
        nodes := nodes
        steps := db.steps.update (Step.scheduled n now) (Step.scheduled_id n now) }) ∧
      Hosts app n { db with
        nodes := nodes
        steps := db.steps.update (Step.scheduled n now) (Step.scheduled_id n now) } node' := by
  obtain ⟨node', hnode', hid', hloop⟩ := scheduleLoop_lone
    (show 0 ≤ app.schedulerConfig.heartbeatTimeoutSeconds by simp [App.schedulerConfig])
    (show 0 ≤ app.schedulerConfig.maxRuntimeOnBatteryMinutes by simp [App.schedulerConfig])
    (fun x hx => ⟨(mem_queuedSteps.1 hx).2, hplain x (mem_queuedSteps.1 hx).1
      (mem_queuedSteps.1 hx).2⟩) hown
  have hsession : sessionNodes db own = [own] := by
    rw [sessionNodes, h.rows, List.map_singleton, if_pos hid.symm]
  have hpass : scheduleQueuedSteps app now own db =
      .ok ((queuedSteps db).map fun x => x.assigned n now, [node']) := by
    rw [scheduleQueuedSteps_eq, hsession, hloop, hid.trans h.id]
  have hnodes : flushNode node own [node'] node = node' := by
    unfold flushNode
    simp only [if_true, Node.flush_loaded hid]
    rw [List.find?_cons_of_pos (by simp [hid', hid])]
    exact Node.flush_loaded hid'
  have hsteps : db.steps.update (flushStep ((queuedSteps db).map fun x => x.assigned n now))
      (flushStep_id _) = db.steps.update (Step.scheduled n now) (Step.scheduled_id n now) :=
    Table.ext (List.map_congr_left fun x hx => flushStep_assigned hx)
  refine ⟨db.nodes.update (flushNode node own [node']) (flushNode_id node own [node']), node', ?_,
    ⟨?_, (hid'.trans hid).trans h.id, hnode'.online, hnode'.root⟩⟩
  · unfold heartbeatCommit
    rw [hpass]
    simp only
    rw [hsteps]
  · show db.nodes.rows.map (flushNode node own [node']) = [node']
    rw [h.rows, List.map_singleton, hnodes]

theorem Step.scheduled_waits {x : Step} (h : x.Waits n) (now : Instant) :
    (x.scheduled n now).Waits n ∧ (x.scheduled n now).status ≠ .queued := by
  unfold Step.scheduled
  split_ifs with hq
  · exact ⟨⟨⟨h.plain.id, h.plain.toolName, h.plain.constraints, h.plain.runtime⟩,
      Or.inr ⟨rfl, rfl⟩, h.unclaimed⟩, nofun⟩
  · exact ⟨h, hq⟩

theorem Step.scheduled_concludes {x : Step} {j : Job} (h : Concludes x j) (n : String)
    (now : Instant) : x.scheduled n now = x ∧ x.status ≠ .queued := by
  have hne : x.status ≠ .queued := by cases h with | completed hx | failed hx => simp [hx]
  exact ⟨if_neg hne, hne⟩

/-- A pass leaves no step queued. -/
theorem Stock.scheduled (h : Stock n none db) (now : Instant) (nodes : Table Node) :
    let db' := { db with
      nodes := nodes
      steps := db.steps.update (Step.scheduled n now) (Step.scheduled_id n now) }
    Stock n none db' ∧ Consumes 0 db db' ∧ ∀ x ∈ db'.steps.rows, x.status ≠ .queued := by
  intro db'
  have hhas : ∀ x j, db.Has x j → db'.Has (x.scheduled n now) j := fun x j hx =>
    ⟨by rw [Step.scheduled_id, Table.get?_update, hx.step]; rfl,
      by rw [Step.scheduled_jobId]; exact hx.job⟩
  have hrests : ∀ x j, Rests n x j → Rests n (x.scheduled n now) j ∧
      (x.scheduled n now).status ≠ .queued ∧ (x.scheduled n now).pends = x.pends := by
    rintro x j (⟨hw, hj⟩ | hc)
    · obtain ⟨hw', hne⟩ := Step.scheduled_waits hw now
      exact ⟨Or.inl ⟨hw', hj⟩, hne, hw'.pends.trans hw.pends.symm⟩
    · obtain ⟨he, hne⟩ := Step.scheduled_concludes hc n now
      rw [he]
      exact ⟨Or.inr hc, hne, rfl⟩
  have hrow : ∀ x ∈ db.steps.rows, ∃ j, db.Has x j ∧ Rests n x j := fun x hx => by
    obtain ⟨j, hj, hr⟩ := h.rows x hx
    exact ⟨j, hj, hr.resolve_right (by simp)⟩
  have hmem : ∀ y ∈ db'.steps.rows, ∃ x ∈ db.steps.rows, x.scheduled n now = y := fun y hy =>
    List.mem_map.1 hy
  have hlength : db'.steps.rows.length = db.steps.rows.length := List.length_map _
  refine ⟨⟨?_, fun p hp => absurd hp (by simp), ?_⟩, ⟨?_, hlength.ge, ?_⟩, ?_⟩
  · intro y hy
    obtain ⟨x, hx, rfl⟩ := hmem y hy
    obtain ⟨j, hj, hr⟩ := hrow x hx
    exact ⟨j, hhas x j hj, Or.inl (hrests x j hr).1⟩
  · intro y hy z hz hjob
    obtain ⟨x, hx, rfl⟩ := hmem y hy
    obtain ⟨w, hw, rfl⟩ := hmem z hz
    rw [Step.scheduled_jobId, Step.scheduled_jobId] at hjob
    rw [h.alone x hx w hw hjob]
  · intro x j hx hc
    obtain ⟨he, -⟩ := Step.scheduled_concludes hc n now
    exact he ▸ hhas x j hx
  · have hcount : db'.backlog = db.backlog := by
      show (db.steps.rows.map (Step.scheduled n now)).countP Step.pends = _
      rw [List.countP_map]
      refine List.countP_congr fun x hx => ?_
      obtain ⟨j, -, hr⟩ := hrow x hx
      rw [Function.comp, (hrests x j hr).2.2]
    rw [hcount, hlength, Nat.add_zero]
  · intro y hy
    obtain ⟨x, hx, rfl⟩ := hmem y hy
    obtain ⟨j, -, hr⟩ := hrow x hx
    exact (hrests x j hr).2.1

/-- **A heartbeat** leaves no step queued. -/
theorem heartbeatNode_served (env : Ambient) {headers : Headers} {body : NodeHeartbeatRequest}
    (hauth : requireWorkerAuth app headers = .ret ()) (hvalid : body.invalid = [])
    (hfresh : ∀ now updatedAt, (node.heartbeat body now updatedAt).Fresh app.schedulerConfig now)
    (h : Hosts app n db node) (hstock : Stock n none db) :
    ∃ node' db', (app.handle ⟨.heartbeatNode n body, headers, env⟩).exec db =
        (.ok (.node node'), db') ∧ Hosts app n db' node' ∧ Stock n none db' ∧ Consumes 0 db db' ∧
      ∀ x ∈ db'.steps.rows, x.status ≠ .queued := by
  have hplain : ∀ x ∈ db.steps.rows, x.status = .queued → x.Plain := fun x hx hq => by
    obtain ⟨j, -, (⟨hw, -⟩ | hc) | he⟩ := hstock.rows x hx
    · exact hw.plain
    · cases hc with
      | completed hx | failed hx => rw [hq] at hx; cases hx
    · cases he
  obtain ⟨nodes, node', hcommit, hhosts⟩ := heartbeatCommit_lone h
    (rfl : (node.heartbeat body (env.clock 0) (env.clock 1)).id = node.id) (hfresh _ _) hplain
  refine ⟨node', _, ?_, hhosts, hstock.scheduled (env.clock 0) nodes⟩
  unfold App.handle heartbeatNode getNode
  rw [hauth]
  simp only [requireValid, hvalid, if_true, bind_eq, ret_bind, exec_bind, exec_read, h.get?,
    pure_eq, exec_ret, exec_atomic, hcommit, refreshNode_exec hhosts]

end

/-! ## A claimed step -/

section
variable {app : App} {n : String} {db : Db} {x : Step} {j : Job}

theorem mem_claimableSteps : x ∈ claimableSteps db n ↔ x ∈ db.steps.rows ∧
    x.status = .assigned ∧ x.assignedNodeId = some n ∧ x.claimedAt = none := by
  simp [claimableSteps, Table.mem_select]

/-- **A claim** takes a step that waits under an assignment, if there is one. -/
theorem claimNext_served (env : Ambient) {headers : Headers}
    (hauth : requireWorkerAuth app headers = .ret ())
    (hnode : requireWorkerNodeId headers = .ret n) (hstock : Stock n none db) :
    ((app.handle ⟨.claimNext ⟨n⟩, headers, env⟩).exec db = (.ok .noContent, db) ∧
      ∀ x ∈ db.steps.rows, x.pends → x.status = .queued) ∨
    ∃ x j, db.Has x j ∧ (x.Waits n ∧ j.status = .queued) ∧
      (x.status = .assigned ∧ x.assignedNodeId = some n) ∧
      (app.handle ⟨.claimNext ⟨n⟩, headers, env⟩).exec db =
        (.ok (.step (x.leased (env.clock 0))), db.setStep (x.leased (env.clock 0))) ∧
      Stock n (some (x.leased (env.clock 0), j)) (db.setStep (x.leased (env.clock 0))) ∧
      Turns x (x.leased (env.clock 0)) db (db.setStep (x.leased (env.clock 0))) := by
  have hrest : ∀ x ∈ db.steps.rows, x.pends → ∃ j, db.Has x j ∧ x.Waits n ∧ j.status = .queued := by
    intro x hx hp
    obtain ⟨j, hj, (hw | hc) | he⟩ := hstock.rows x hx
    · exact ⟨j, hj, hw⟩
    · rw [hc.not_pends] at hp
      cases hp
    · cases he
  unfold App.handle
  rw [hauth]
  simp only [bind_eq, ret_bind, hnode, claimNext, ne_eq, not_true_eq_false, if_false]
  cases hhead : (claimableSteps db n).head? with
  | none =>
    refine Or.inl ⟨by simp [exec_bind, hhead], fun x hx hp => ?_⟩
    obtain ⟨j, -, hw, -⟩ := hrest x hx hp
    refine hw.place.resolve_right ?_
    rintro ⟨hs, hn⟩
    have hmem := mem_claimableSteps.2 ⟨hx, hs, hn, hw.unclaimed⟩
    rw [List.head?_eq_none_iff.1 hhead] at hmem
    cases hmem
  | some x =>
    obtain ⟨hx, hs, hn, hcl⟩ := mem_claimableSteps.1 (List.mem_of_head? hhead)
    obtain ⟨j, hhas, hw⟩ := hrest x hx (by simp [Step.pends, hs, hcl])
    obtain ⟨hstock', hturns⟩ := hstock.turn (by simp) hhas
      (rfl : (x.leased (env.clock 0)).id = x.id) rfl id (fun _ => rfl) rfl
    rw [mapJob_fixed (by rw [setStep_jobs]; exact hhas.job) rfl] at hstock' hturns
    refine Or.inr ⟨x, j, hhas, hw, ⟨hs, hn⟩, ?_, hstock', hturns⟩
    have hu : updateSteps (claimNextGuard x n) [.claimedAt (env.clock 0)] db = _ :=
      updateSteps_eq _ (fun y hy => by
        simp only [claimNextGuard, decide_eq_true_eq] at hy
        exact hy.1) hhas.step (by simp [claimNextGuard, hs, hn, hcl])
    have hget : (db.setStep (x.leased (env.clock 0))).steps.get? x.id = _ :=
      setStep_get?_self hhas.step rfl
    simp [exec_bind, hhead, hu, Step.setValues_claimedAt, hget]

/-- **A report on the step that the Worker holds** writes it and its job. -/
theorem lifecycle_served {r : Request} (hstock : Stock n (some (x, j)) db)
    (hadmitted : Admitted app r x) :
    (app.handle r).exec db = (.ok (.step (x.after r)), db.after r x) ∧
      ∃ steps, steps ≠ [] ∧ (∀ y ∈ steps, y = x.after r) ∧
        Stock n (some (x.after r, j.after r steps)) (db.after r x) ∧
        Turns x (x.after r) db (db.after r x) := by
  have hhas : db.Has x j := hstock.has _ rfl
  have hmem : ∀ y, y ∈ (db.setStep (x.after r)).steps.rows ↔
      y = x.after r ∨ y ∈ db.steps.rows ∧ y.id ≠ x.id := fun y =>
    mem_setStep hhas.step (Step.after_id x r)
  refine ⟨exec_admitted hhas.step hadmitted,
    (db.setStep (x.after r)).steps.select fun s => s.jobId = x.jobId, ?_, fun y hy => ?_,
    hstock.turn (fun p hp => Option.some.inj hp.symm) hhas (Step.after_id x r)
      (Step.after_jobId x r) _ (Job.after_id r _) rfl⟩
  · refine List.ne_nil_of_mem (Table.mem_select.2 ⟨(hmem (x.after r)).2 (Or.inl rfl), ?_⟩)
    exact decide_eq_true (Step.after_jobId x r)
  · obtain ⟨hy, hjob⟩ := Table.mem_select.1 hy
    refine ((hmem y).1 hy).resolve_right fun ⟨hold, hne⟩ => hne ?_
    exact congrArg Step.id (hstock.alone y hold x (Table.mem_of_get? hhas.step)
      (of_decide_eq_true hjob))

end

/-! ## The execution of a claimed step -/

/-- The row shows what the runner returned or raised. -/
def WorkerAgent.Reports (worker : WorkerAgent) (x : Step) : Except String Dict → Prop
  | .ok outputJson =>
    if reportsFailure outputJson then
      x.status = .failed ∧ x.errorMessage = some (worker.failureText outputJson)
    else x.status = .completed ∧ x.outputJson = some outputJson
  | .error exc => x.status = .failed ∧ x.errorMessage = some exc

/-- What the runner was called with and what it answered. -/
def ranBy : (o : LoopOp) → o.Answer → Option (Dict × Except String Dict)
  | .runStep step, answer => some (step, answer)
  | _, _ => none

/-- The steps that were run, in order. -/
def ran {σ : Type} (cs : List (Effects.Call LoopOp LoopOp.Answer σ)) :
    List (Dict × Except String Dict) := cs.filterMap fun c => ranBy c.op c.ans

/-- The step is the Worker's, claimed. -/
structure InHand (n : String) (s : StepStatus) (x : Step) : Prop where
  status : x.status = s
  owner : x.assignedNodeId = some n
  claimed : x.claimedAt.isSome

section
variable {D : Deployment} {n : String} {db db' : Db} {x : Step} {j : Job}

theorem InHand.not_pends {s : StepStatus} (h : InHand n s x) : x.pends = false := by
  obtain ⟨now, hnow⟩ := Option.isSome_iff_exists.1 h.claimed
  simp [Step.pends, hnow]

theorem InHand.open {s : StepStatus} (h : InHand n s x) (hs : s = .assigned ∨ s = .running) :
    ¬ Concludes x j := by
  intro hc
  have hst := h.status
  rcases hs with rfl | rfl <;> cases hc with
    | completed hx | failed hx => rw [hst] at hx; cases hx

/-- **A report on the step in hand**, behind requests of clients. -/
theorem report_served {call : Call} {headers : Headers} {s s' : StepStatus}
    {r : Except String (Option Dict)}
    (hserved : D.sem (.post ⟨call, headers⟩) db r db') (hstock : Stock n (some (x, j)) db)
    (hauth : requireWorkerAuth D.app headers = .ret ())
    (hnode : requireWorkerNodeId headers = .ret n) (hx : InHand n s x)
    (hs : s = .assigned ∨ s = .running) (hfence : call.fence? = some (x.id, x.assignmentEpoch))
    (hfrom : s ∈ call.fromStatuses) (hto : call.target? = some (x.id, s')) :
    ∃ env steps answer, r = .ok answer ∧ steps ≠ [] ∧
      (∀ y ∈ steps, y = x.after ⟨call, headers, env⟩) ∧
      InHand n s' (x.after ⟨call, headers, env⟩) ∧
      Stock n (some (x.after ⟨call, headers, env⟩, j.after ⟨call, headers, env⟩ steps)) db' ∧
      Consumes 0 db db' ∧ db'.nodes = db.nodes := by
  obtain ⟨db₁, harrives, env, o, henv, hexec, hdelivered⟩ := hserved
  obtain ⟨hstock, hgrows⟩ := hstock.arrives harrives
  have hadmitted : Admitted D.app ⟨call, headers, env⟩ x :=
    ⟨hauth, ⟨n, hnode, hx.owner⟩, hfence, hx.status ▸ hfrom⟩
  obtain ⟨hexec', steps, hne, hsteps, hstock', hturns⟩ := lifecycle_served hstock hadmitted
  cases hexec.symm.trans hexec'
  obtain ⟨d, rfl, -⟩ := hdelivered
  have hinhand : InHand n s' (x.after ⟨call, headers, env⟩) := by
    obtain ⟨hst, ho, hcl⟩ := hx
    cases call with
    | startStep | completeStep | failStep => cases hto; exact ⟨rfl, ho, hcl⟩
    | _ => cases hto
  have hconsumes : Consumes 0 db₁ (db₁.after ⟨call, headers, env⟩ x) :=
    hturns.consumes (hstock.has _ rfl) (hx.open hs) (by rw [hx.not_pends, hinhand.not_pends]; rfl)
  exact ⟨env, steps, some d, rfl, hne, hsteps, hinhand, hstock', hgrows.consumes.trans hconsumes,
    hturns.nodes.trans hgrows.nodes⟩

/-- What is left when the step `x` in hand has ended as `out`. -/
structure Finished (worker : WorkerAgent) (n : String) (x : Step) (out : Except String Dict)
    (db db' : Db) : Prop where
  stock : Stock n none db'
  consumes : Consumes 0 db db'
  nodes : db'.nodes = db.nodes
  ended : ∃ x' j, db'.Has x' j ∧ x'.id = x.id ∧ worker.Reports x' out ∧ Concludes x' j

theorem Finished.after {worker : WorkerAgent} {out : Except String Dict} {db₁ : Db} {x' : Step}
    (h : Finished worker n x' out db₁ db') (hid : x'.id = x.id) (hs : Consumes 0 db db₁)
    (hn : db₁.nodes = db.nodes) : Finished worker n x out db db' where
  stock := h.stock
  consumes := hs.trans h.consumes
  nodes := h.nodes.trans hn
  ended := by
    obtain ⟨y, k, hhas, hy, hr, hc⟩ := h.ended
    exact ⟨y, k, hhas, hy.trans hid, hr, hc⟩

variable {worker : WorkerAgent} {out : Except String Dict}
  {cs : List (Effects.Call LoopOp LoopOp.Answer Db)}
  {o : Except String Unit} {r : Except String (Option Dict)}

/-- **A failure is stored.** -/
theorem failStep_finished {text : String}
    (hserved : D.sem (.post ⟨.failStep x.id ⟨⟨x.assignmentEpoch⟩, text⟩, worker.headers⟩) db r db')
    (hstock : Stock n (some (x, j)) db) (hauth : requireWorkerAuth D.app worker.headers = .ret ())
    (hnode : requireWorkerNodeId worker.headers = .ret n) (hx : InHand n .running x)
    (hout : ∀ y : Step, y.status = .failed → y.errorMessage = some text → worker.Reports y out) :
    (∃ answer, r = .ok answer) ∧ Finished worker n x out db db' := by
  obtain ⟨env, steps, answer, rfl, -, -, hinhand, hstock', hconsumes, hnodes⟩ :=
    report_served hserved hstock hauth hnode hx (Or.inr rfl) rfl (by simp [Call.fromStatuses]) rfl
  let request : Request := ⟨.failStep x.id ⟨⟨x.assignmentEpoch⟩, text⟩, worker.headers, env⟩
  have hc : Concludes (x.after request) (j.after request steps) :=
    .failed hinhand.status rfl ⟨rfl, rfl⟩
  exact ⟨⟨answer, rfl⟩, hstock'.release (Or.inr hc), hconsumes, hnodes, _, _, hstock'.has _ rfl,
    Step.after_id x _, hout _ rfl rfl, hc⟩

/-- **A result is stored.** -/
theorem completeStep_finished {outputJson : Dict}
    (hserved : D.sem (.post ⟨.completeStep x.id ⟨⟨x.assignmentEpoch⟩, outputJson⟩, worker.headers⟩)
      db r db')
    (hstock : Stock n (some (x, j)) db) (hauth : requireWorkerAuth D.app worker.headers = .ret ())
    (hnode : requireWorkerNodeId worker.headers = .ret n) (hx : InHand n .running x)
    (hout : ¬ reportsFailure outputJson) :
    (∃ answer, r = .ok answer) ∧ Finished worker n x (.ok outputJson) db db' := by
  obtain ⟨env, steps, answer, rfl, hne, hsteps, hinhand, hstock', hconsumes, hnodes⟩ :=
    report_served hserved hstock hauth hnode hx (Or.inr rfl) rfl (by simp [Call.fromStatuses]) rfl
  let request : Request :=
    ⟨.completeStep x.id ⟨⟨x.assignmentEpoch⟩, outputJson⟩, worker.headers, env⟩
  have hall : ∀ y ∈ steps, y.status = .completed := fun y hy => hsteps y hy ▸ rfl
  have hj : (j.after request steps).status = .completed ∧ (j.after request steps).progress = 100 := by
    have hafter : j.afterStepCompletion steps (fun i => env.clock (i + 1)) = _ :=
      Job.afterStepCompletion_all hne hall
    exact ⟨congrArg Job.status hafter, congrArg Job.progress hafter⟩
  have hc : Concludes (x.after request) (j.after request steps) :=
    .completed hinhand.status hj.1 hj.2
  refine ⟨⟨answer, rfl⟩, hstock'.release (Or.inr hc), hconsumes, hnodes, _, _, hstock'.has _ rfl,
    Step.after_id x _, ?_, hc⟩
  show if _ then _ else _
  rw [if_neg hout]
  exact ⟨rfl, rfl⟩

/-- The report of an exception, which ends the step. -/
theorem ends_failStep {text : String} (hends : Ends D.sem
      (WorkerProg.loop (do let _ ← worker.failStep x.id x.assignmentEpoch text)) db cs o db')
    (hstock : Stock n (some (x, j)) db) (hauth : requireWorkerAuth D.app worker.headers = .ret ())
    (hnode : requireWorkerNodeId worker.headers = .ret n) (hx : InHand n .running x) :
    o = .ok () ∧ ran cs = [] ∧ Finished worker n x (.error text) db db' := by
  obtain ⟨r, u, cs, rfl, hserved, hends⟩ := hends
  have hreport : _ ∧ Finished worker n x (.error text) db u :=
    failStep_finished hserved hstock hauth hnode hx fun y hs he => ⟨hs, he⟩
  obtain ⟨⟨answer, rfl⟩, hfin⟩ := hreport
  obtain ⟨rfl, rfl, rfl⟩ := hends
  exact ⟨rfl, rfl, hfin⟩

/-- **The execution of a claimed step** runs it once and stores what became of it. -/
theorem ends_executeClaimedStep {step : Dict} (hends : Ends D.sem
      (WorkerProg.loop (executeClaimedStep worker step)) db cs o db')
    (hcarried : Response.Carried (.step x) step) (hid : x.id ≠ "")
    (hstock : Stock n (some (x, j)) db) (hauth : requireWorkerAuth D.app worker.headers = .ret ())
    (hnode : requireWorkerNodeId worker.headers = .ret n) (hx : InHand n .assigned x) :
    o = .ok () ∧ ∃ out, ran cs = [(step, out)] ∧ Finished worker n x out db db' := by
  have hstepId : requiredStepStr step "id" = .ok x.id := by
    simp [requiredStepStr, hcarried.1.id, hid]
  have hepoch : requiredStepInt step "assignment_epoch" = .ok x.assignmentEpoch := by
    simp [requiredStepInt, hcarried.2]
  unfold executeClaimedStep at hends
  rw [hstepId, hepoch] at hends
  -- the start is accepted
  obtain ⟨r, db₁, cs, rfl, hserved, hends⟩ := hends
  obtain ⟨env, steps, answer, rfl, -, -, hrunning, hstock₁, hconsumes₁, hnodes₁⟩ :=
    report_served hserved hstock hauth hnode hx (Or.inl rfl) rfl (by simp [Call.fromStatuses]) rfl
  generalize hy : x.after ⟨_, worker.headers, env⟩ = y at hrunning hstock₁
  generalize j.after ⟨_, worker.headers, env⟩ steps = k at hstock₁
  have hyid : y.id = x.id := hy ▸ rfl
  have hyepoch : y.assignmentEpoch = x.assignmentEpoch := hy ▸ rfl
  -- the step is run
  obtain ⟨out, db₂, cs, rfl, ⟨db₁', harrives, -, rfl⟩, hends⟩ := hends
  obtain ⟨hstock₂, hgrows⟩ := hstock₁.arrives harrives
  have hconsumes₂ := hconsumes₁.trans hgrows.consumes
  have hnodes₂ := hgrows.nodes.trans hnodes₁
  rw [← hyid, ← hyepoch] at hends
  cases out with
  | error text =>
    obtain ⟨rfl, hran, hfin⟩ := ends_failStep hends hstock₂ hauth hnode hrunning
    exact ⟨rfl, .error text, congrArg _ hran, hfin.after hyid hconsumes₂ hnodes₂⟩
  | ok outputJson =>
    change Ends D.sem (WorkerProg.loop (Client.tryCatch
      (if reportsFailure outputJson = true then _ else _) _)) db₂ cs o db' at hends
    split_ifs at hends with hfails
    · obtain ⟨r, u, cs, rfl, hserved, hends⟩ := hends
      have hreport : _ ∧ Finished worker n y (.ok outputJson) db₂ u :=
        failStep_finished hserved hstock₂ hauth hnode hrunning fun z hs he => by
          show if _ then _ else _
          rw [if_pos hfails]
          exact ⟨hs, he⟩
      obtain ⟨⟨answer, rfl⟩, hfin⟩ := hreport
      obtain ⟨rfl, rfl, rfl⟩ := hends
      exact ⟨rfl, .ok outputJson, rfl, hfin.after hyid hconsumes₂ hnodes₂⟩
    · obtain ⟨r, u, cs, rfl, hserved, hends⟩ := hends
      obtain ⟨⟨answer, rfl⟩, hfin⟩ := completeStep_finished hserved hstock₂ hauth hnode hrunning
        hfails
      obtain ⟨rfl, rfl, rfl⟩ := hends
      exact ⟨rfl, .ok outputJson, rfl, hfin.after hyid hconsumes₂ hnodes₂⟩

end

/-! ## The loop -/

/-- The id that a claimed step names. -/
def claimedId (step : Dict) : Option Json := Dict.get? step "id"

/-- The Worker has run the steps `l`, and nothing else has changed but for what clients have
    added: each has ended as it was run. -/
structure Drained (app : App) (worker : WorkerAgent) (l : List (Dict × Except String Dict))
    (db db' : Db) : Prop where
  hosts : ∃ node, Hosts app worker.nodeId db' node
  stock : Stock worker.nodeId none db'
  consumes : Consumes l.length db db'
  ended : ∀ p ∈ l, ∃ x j, db'.Has x j ∧ claimedId p.1 = some (.str x.id) ∧ worker.Reports x p.2 ∧
    Concludes x j
  unended : ∀ p ∈ l, ∀ x j, db.Has x j → Concludes x j → claimedId p.1 ≠ some (.str x.id)
  nodup : (l.map fun p => claimedId p.1).Nodup

section
variable {D : Deployment} {app : App} {worker : WorkerAgent} {a b c : Db}
  {l l' : List (Dict × Except String Dict)}

theorem Drained.nil {node : Node} (hhosts : Hosts app worker.nodeId b node)
    (hstock : Stock worker.nodeId none b) (hconsumes : Consumes 0 a b) : Drained app worker [] a b :=
  ⟨⟨node, hhosts⟩, hstock, hconsumes, by simp, by simp, List.nodup_nil⟩

/-- **One part of a session after the other.** -/
theorem Drained.trans (h : Drained app worker l a b) (h' : Drained app worker l' b c) :
    Drained app worker (l ++ l') a c where
  hosts := h'.hosts
  stock := h'.stock
  consumes := by
    rw [List.length_append]
    exact h.consumes.trans h'.consumes
  ended p hp := by
    rcases List.mem_append.1 hp with hp | hp
    · obtain ⟨x, j, hx, hid, hr, hc⟩ := h.ended p hp
      exact ⟨x, j, h'.consumes.kept x j hx hc, hid, hr, hc⟩
    · exact h'.ended p hp
  unended p hp x j hx hc := by
    rcases List.mem_append.1 hp with hp | hp
    · exact h.unended p hp x j hx hc
    · exact h'.unended p hp x j (h.consumes.kept x j hx hc) hc
  nodup := by
    rw [List.map_append]
    refine List.Nodup.append h.nodup h'.nodup fun id hid hid' => ?_
    obtain ⟨p, hp, rfl⟩ := List.mem_map.1 hid
    obtain ⟨p', hp', he⟩ := List.mem_map.1 hid'
    obtain ⟨x, j, hx, hxid, -, hc⟩ := h.ended p hp
    exact h'.unended p' hp' x j hx hc (he.trans hxid)

/-- What clients add before and behind a part of a session. -/
theorem Drained.before {a' : Db} (h : Drained app worker l a b) (hg : Consumes 0 a' a) :
    Drained app worker l a' b where
  hosts := h.hosts
  stock := h.stock
  consumes := by
    have hs := hg.trans h.consumes
    rwa [Nat.zero_add] at hs
  ended := h.ended
  unended p hp x j hx hc := h.unended p hp x j (hg.kept x j hx hc) hc
  nodup := h.nodup

theorem Drained.arrives (h : Drained app worker l a b) (hd : D.Arrives b c) :
    Drained app worker l a c := by
  obtain ⟨hstock, hgrows⟩ := h.stock.arrives hd
  obtain ⟨node, hhosts⟩ := h.hosts
  have hrest : Drained app worker [] b c :=
    .nil (hhosts.congr hgrows.nodes) hstock hgrows.consumes
  simpa using h.trans hrest

end

theorem ran_append {σ : Type} (cs cs' : List (Effects.Call LoopOp LoopOp.Answer σ)) :
    ran (cs ++ cs') = ran cs ++ ran cs' := List.filterMap_append

section
variable {D : Deployment} {h : Host} {str : Json → String} {config : WorkerLoopConfig}
  {db db' : Db} {cs : List (Effects.Call LoopOp LoopOp.Answer Db)} {node : Node}

theorem Deployment.Fit.fresh (hfit : D.Fit h config) {metrics : NodeHeartbeatRequest}
    (hm : D.metrics metrics) (hhosts : Hosts D.app config.nodeId db node) (now updatedAt : Instant) :
    (node.heartbeat metrics now updatedAt).Fresh D.app.schedulerConfig now := by
  refine ⟨hhosts.online, rfl, hhosts.root, hfit.cpu _ hm, hfit.memory _ hm, hfit.disk _ hm,
    hfit.thermal _ hm, ?_⟩
  have hbound : (0 : ℤ) < 2 ^ 1024 - 2 ^ 970 := by decide +kernel
  have hpriorities := hfit.priorities
  generalize (2 : ℤ) ^ 1024 - 2 ^ 970 = bound at hbound hpriorities ⊢
  exact nodePriority_ind (P := fun p => |p| < bound) (by simpa using hbound) hpriorities _

/-- What was claimed is executed: nothing, or the step in hand. -/
theorem ends_executeClaimed {x : Step} {j : Job} {step : Dict} {o : Except String Unit}
    (hfit : D.Fit h config)
    (hends : Ends D.sem (executeClaimed str config (some step)) db cs o db')
    (hcarried : Response.Carried (.step x) step) (hid : x.id ≠ "")
    (hstock : Stock config.nodeId (some (x, j)) db) (hx : InHand config.nodeId .assigned x) :
    o = .ok () ∧ ∃ out, ran cs = [(step, out)] ∧
      Finished (config.worker str) config.nodeId x out db db' := by
  have hexecutes := hfit.executes
  simp only [executeClaimed, hexecutes, if_true] at hends
  exact ends_executeClaimedStep hends hcarried hid hstock (hfit.auth str) (hfit.nodeId str) hx

/-- The heartbeat of a poll, behind requests of clients: then no step is queued. -/
theorem heartbeat_served {metrics : NodeHeartbeatRequest} {r : Except String (Option Dict)}
    (hfit : D.Fit h config) (hm : D.metrics metrics)
    (hserved : D.sem (.post ⟨.heartbeatNode config.nodeId metrics, (config.worker str).headers⟩) db r
      db')
    (hhosts : Hosts D.app config.nodeId db node) (hstock : Stock config.nodeId none db) :
    ∃ answer, r = .ok answer ∧ Drained D.app (config.worker str) [] db db' ∧
      ∀ x ∈ db'.steps.rows, x.status ≠ .queued := by
  obtain ⟨db₁, harrives, env, o, -, hexec, hdelivered⟩ := hserved
  obtain ⟨hstock, hgrows⟩ := hstock.arrives harrives
  have hhosts₁ := hhosts.congr hgrows.nodes
  obtain ⟨node', db₂, hexec', hhosts', hstock', hconsumes, hassigned⟩ :=
    heartbeatNode_served env (hfit.auth str) (hfit.valid _ hm) (hfit.fresh hm hhosts₁)
      hhosts₁ hstock
  cases hexec.symm.trans hexec'
  obtain ⟨d, rfl, -⟩ := hdelivered
  exact ⟨some d, rfl, .nil hhosts' hstock' (hgrows.consumes.trans hconsumes), hassigned⟩

/-- The claim of a poll and the execution of what it claimed. -/
theorem claim_served {r : Except String (Option Dict)} (hfit : D.Fit h config)
    (hserved : D.sem (.post ⟨.claimNext ⟨config.nodeId⟩, (config.worker str).headers⟩) db r db')
    (hhosts : Hosts D.app config.nodeId db node) (hstock : Stock config.nodeId none db)
    (hassigned : ∀ x ∈ db.steps.rows, x.status ≠ .queued) :
    ∃ claimed, r = .ok claimed ∧ ∀ cs o db₂,
      Ends D.sem (executeClaimed str config claimed) db' cs o db₂ →
      o = .ok () ∧ (ran cs).map Prod.fst = claimed.toList ∧
        min 1 db.backlog ≤ (ran cs).length ∧ Drained D.app (config.worker str) (ran cs) db db₂ := by
  obtain ⟨db₁, harrives, env, o, -, hexec, hdelivered⟩ := hserved
  have hstart : Drained D.app (config.worker str) [] db db := .nil hhosts hstock (.refl db)
  have hempty := hstart.arrives harrives
  obtain ⟨hstock₁, hgrows⟩ := hstock.arrives harrives
  rcases claimNext_served env (hfit.auth str) (hfit.nodeId str) hstock₁ with
    ⟨hexec', hnone⟩ | ⟨x, j, hhas, ⟨hwaits, hj⟩, ⟨hs, hn⟩, hexec', hstock', hturns⟩
  · -- nothing waits
    cases hexec.symm.trans hexec'
    obtain rfl : r = .ok none := hdelivered
    refine ⟨none, rfl, fun cs o db₂ hends => ?_⟩
    obtain ⟨rfl, rfl, rfl⟩ := hends
    refine ⟨rfl, rfl, ?_, hempty⟩
    have hzero : db.backlog = 0 := by
      refine List.countP_eq_zero.2 fun x hx hp => hassigned x hx ?_
      obtain ⟨j, hhas, -⟩ := hstock.rows x hx
      exact hnone x (Table.mem_of_get? (hgrows.kept x j hhas).step) hp
    simp [hzero]
  · -- a step is in hand
    cases hexec.symm.trans hexec'
    obtain ⟨step, rfl, hcarried⟩ := hdelivered
    refine ⟨some step, rfl, fun cs o db₂ hends => ?_⟩
    have hx : InHand config.nodeId .assigned (x.leased (env.clock 0)) := ⟨hs, hn, rfl⟩
    obtain ⟨rfl, out, hran, hfin⟩ :=
      ends_executeClaimed hfit hends hcarried hwaits.plain.id hstock' hx
    rw [hran]
    have hopen : ∀ k, ¬ Concludes x k := fun k hc => by
      have hp := hwaits.pends
      rw [hc.not_pends] at hp
      cases hp
    have hconsumes : Consumes 1 db₁ (db₁.setStep (x.leased (env.clock 0))) :=
      hturns.consumes hhas (hopen j) (by rw [hx.not_pends, hwaits.pends]; rfl)
    refine ⟨rfl, rfl, Nat.min_le_left _ _, ⟨node, ?_⟩, hfin.stock, ?_, ?_, ?_,
      List.nodup_singleton _⟩
    · exact hhosts.congr (hfin.nodes.trans (hturns.nodes.trans hgrows.nodes))
    · exact (hgrows.consumes.trans hconsumes).trans hfin.consumes
    · intro p hp
      obtain rfl := List.mem_singleton.1 hp
      obtain ⟨x', j', hhas', hid, hreports, hc⟩ := hfin.ended
      exact ⟨x', j', hhas', hid ▸ hcarried.1.id, hreports, hc⟩
    · intro p hp y k hy hc hid
      obtain rfl := List.mem_singleton.1 hp
      obtain hsame : x.id = y.id := Json.str.inj (Option.some.inj (hcarried.1.id.symm.trans hid))
      have hyx : y = x :=
        Option.some.inj ((hgrows.kept y k hy).step.symm.trans (hsame ▸ hhas.step))
      exact hopen k (hyx ▸ hc)

/-- **One poll** runs a step if any waits. -/
theorem ends_poll {fuel polls : ℕ} {claimed : List Dict} {o : Except String (Option (List Dict))}
    (hfit : D.Fit h config) (hhosts : Hosts D.app config.nodeId db node)
    (hstock : Stock config.nodeId none db)
    (hends : Ends D.sem (pollLoop str config (fuel + 1) polls claimed) db cs o db') :
    ∃ db₁ cs₁ rest, cs = cs₁ ++ rest ∧ (ran cs₁).length ≤ 1 ∧
      min 1 db.backlog ≤ (ran cs₁).length ∧ Drained D.app (config.worker str) (ran cs₁) db db₁ ∧
      Ends D.sem (if config.stops (polls + 1) then
          pure (some (claimed ++ (ran cs₁).map Prod.fst))
        else do
          pause config
          pollLoop str config fuel (polls + 1) (claimed ++ (ran cs₁).map Prod.fst))
        db₁ rest o db' := by
  unfold pollLoop at hends
  -- the metrics
  obtain ⟨r, db₁, cs, rfl, ⟨_, harrives, ⟨metrics, hm, rfl⟩, rfl⟩, hends⟩ := hends
  have hstart : Drained D.app (config.worker str) [] db db := .nil hhosts hstock (.refl db)
  have hbefore := hstart.arrives harrives
  obtain ⟨node₁, hhosts₁⟩ := hbefore.hosts
  -- the heartbeat
  obtain ⟨r, db₂, cs, rfl, hserved, hends⟩ := hends
  obtain ⟨answer, rfl, hbeat, hassigned⟩ := heartbeat_served hfit hm hserved hhosts₁ hbefore.stock
  obtain ⟨node₂, hhosts₂⟩ := hbeat.hosts
  -- the claim
  obtain ⟨r, db₃, cs, rfl, hserved, hends⟩ := hends
  obtain ⟨claimed', rfl, hclaim⟩ := claim_served hfit hserved hhosts₂ hbeat.stock hassigned
  change Ends D.sem ((executeClaimed str config claimed').bind fun _ => _) db₃ cs o db' at hends
  rcases Ends.bind hends with ⟨exc, -, hexc⟩ | ⟨⟨⟩, db₄, handling, rest, rfl, hhandling, hrest⟩
  · cases (hclaim _ _ _ hexc).1
  · obtain ⟨-, hran, hmin, hdrained⟩ := hclaim _ _ _ hhandling
    have hall := (hbefore.trans hbeat).trans hdrained
    have hbacklog : min 1 db.backlog ≤ min 1 db₂.backlog := by
      have h₁ := hbefore.consumes.count
      have h₂ := hbefore.consumes.length
      have h₃ := hbeat.consumes.count
      have h₄ := hbeat.consumes.length
      simp only [List.length_nil] at h₁ h₃
      omega
    have hlength : (ran handling).length ≤ 1 := by
      rw [← List.length_map Prod.fst, hran]
      exact Option.length_toList_le
    rw [← hran] at hrest
    exact ⟨db₄, _ :: _ :: _ :: handling, rest, rfl, hlength, hbacklog.trans hmin, hall, hrest⟩

/-- How the loop ends after `p` polls: out of fuel, or where it is to stop first. -/
def Stopped (config : WorkerLoopConfig) (fuel polls p : ℕ) (claimed : List Dict)
    (o : Except String (Option (List Dict))) : Prop :=
  (∀ q, 0 < q → q < p → ¬ config.stops (polls + q)) ∧
    (o = .ok none ∧ p = fuel ∧ (0 < p → ¬ config.stops (polls + p)) ∨
      o = .ok (some claimed) ∧ 0 < p ∧ config.stops (polls + p))

/-- **The loop** runs one of the waiting steps at every poll, as long as there are any. -/
theorem ends_pollLoop {fuel polls : ℕ} {claimed : List Dict}
    {o : Except String (Option (List Dict))} (hfit : D.Fit h config)
    (hhosts : Hosts D.app config.nodeId db node) (hstock : Stock config.nodeId none db)
    (hends : Ends D.sem (pollLoop str config fuel polls claimed) db cs o db') :
    ∃ p, (ran cs).length ≤ p ∧ min p db.backlog ≤ (ran cs).length ∧
      Drained D.app (config.worker str) (ran cs) db db' ∧
      Stopped config fuel polls p (claimed ++ (ran cs).map Prod.fst) o := by
  induction fuel generalizing polls claimed db cs node with
  | zero =>
    obtain ⟨rfl, rfl, rfl⟩ := hends
    exact ⟨0, le_rfl, Nat.zero_le _, .nil hhosts hstock (.refl _), fun q h₁ h₂ => by omega,
      Or.inl ⟨rfl, rfl, fun h₁ => by omega⟩⟩
  | succ fuel ih =>
    obtain ⟨db₁, cs₁, rest, rfl, hone, hmin, hdrained, hends⟩ := ends_poll hfit hhosts hstock hends
    have hcount := hdrained.consumes.count
    have hlength := hdrained.consumes.length
    rw [ran_append, List.length_append]
    split_ifs at hends with hstops
    · obtain ⟨rfl, rfl, rfl⟩ := hends
      have hnil : ran ([] : List (Effects.Call LoopOp LoopOp.Answer Db)) = [] := rfl
      rw [hnil, List.append_nil, List.length_nil, Nat.add_zero]
      exact ⟨1, hone, hmin, hdrained, fun q h₁ h₂ => by omega, Or.inr ⟨rfl, by omega, hstops⟩⟩
    · -- the pause, and the rest of the loop
      obtain ⟨r, db₂, rest, rfl, ⟨_, harrives, rfl, rfl⟩, hends⟩ := hends
      have hpause := hdrained.arrives harrives
      obtain ⟨node₂, hhosts₂⟩ := hpause.hosts
      obtain ⟨p, hle, hmin', hrest, hstopped, hend⟩ := ih hhosts₂ hpause.stock hends
      have hcount' := hpause.consumes.count
      have hlength' := hpause.consumes.length
      have hran : ran (⟨LoopOp.sleep config.claimIntervalSeconds, .ok (), db₁, db₂⟩ :: rest) =
          ran rest := rfl
      rw [hran]
      refine ⟨p + 1, by omega, by omega, hpause.trans hrest, fun q h₁ h₂ => ?_, ?_⟩
      · by_cases hq : q = 1
        · rwa [hq]
        · have hlater := hstopped (q - 1) (by omega) (by omega)
          rwa [show polls + 1 + (q - 1) = polls + q by omega] at hlater
      · rw [List.map_append, ← List.append_assoc, show polls + (p + 1) = polls + 1 + p by omega]
        rcases hend with ⟨ho, hp, hlater⟩ | ⟨ho, hp, hlater⟩
        · refine Or.inl ⟨ho, by omega, fun _ => ?_⟩
          by_cases hzero : p = 0
          · rwa [hzero]
          · exact hlater (by omega)
        · exact Or.inr ⟨ho, by omega, hlater⟩

/-- **A session** of the Worker, from the start. -/
theorem ends_runWorker {fuel : ℕ} {o : Except String (Option (List Dict))} (hfit : D.Fit h config)
    (hlone : Lone D.app config.nodeId db) (hstock : Stock config.nodeId none db)
    (hends : Ends D.sem (runWorker h str config fuel) db cs o db') :
    ∃ p, (ran cs).length ≤ p ∧ min p db.backlog ≤ (ran cs).length ∧
      Drained D.app (config.worker str) (ran cs) db db' ∧
      Stopped config fuel 0 p ((ran cs).map Prod.fst) o := by
  obtain ⟨r, db₂, cs, rfl, ⟨db₁, harrives, env, o', henv, hexec, hdelivered⟩, hends⟩ := hends
  obtain ⟨hstock₁, hgrows⟩ := hstock.arrives harrives
  have hlone₁ : Lone D.app config.nodeId db₁ :=
    hlone.imp (fun hn => hgrows.nodes.trans hn) fun ⟨node, hn⟩ => ⟨node, hn.congr hgrows.nodes⟩
  obtain ⟨hroot, hok⟩ := hfit.root env henv
  obtain ⟨node, nodes, hexec', hhosts⟩ := registerNode_served
    { nodeId := config.nodeId
      name := config.nodeName
      sharedRoot := (h.real (h.expanduser config.sharedRoot)).str
      maxFfmpegJobs := config.maxFfmpegJobs
      maxWhisperJobs := config.maxWhisperJobs } (hfit.auth str) hroot hok hlone₁
  cases hexec.symm.trans hexec'
  obtain ⟨d, rfl, -⟩ := hdelivered
  -- the registration leaves the steps and the jobs alone
  have hhas : ∀ x j, db₁.Has x j → Db.Has { db₁ with nodes := nodes } x j := fun x j hx =>
    ⟨hx.step, hx.job⟩
  have hstock₂ : Stock config.nodeId none { db₁ with nodes := nodes } := by
    refine ⟨fun x hx => ?_, by simp, hstock₁.alone⟩
    obtain ⟨j, hj, hrests⟩ := hstock₁.rows x hx
    exact ⟨j, hhas x j hj, hrests⟩
  have hconsumes : Consumes 0 db { db₁ with nodes := nodes } :=
    ⟨fun x j hx _ => hhas x j (hgrows.kept x j hx), hgrows.length, hgrows.count⟩
  obtain ⟨p, hle, hmin, hdrained, hstopped⟩ := ends_pollLoop hfit hhosts hstock₂ hends
  refine ⟨p, hle, le_trans ?_ hmin, hdrained.before hconsumes, hstopped⟩
  have hcount := hconsumes.count
  have hlength := hconsumes.length
  omega

end

/-- **What sessions and clients leave behind**, at any time between two sessions. -/
theorem Deployment.History.stock {D : Deployment} {str : Json → String} {n : String} {db : Db}
    (hdb : D.History str n db) : Lone D.app n db ∧ Stock n none db := by
  induction hdb with
  | empty => exact ⟨Or.inl rfl, stock_empty n⟩
  | client _ hsub ih =>
    obtain ⟨hstock, hgrows⟩ := ih.2.submits hsub
    exact ⟨ih.1.imp (fun hn => hgrows.nodes.trans hn)
      fun ⟨node, hn⟩ => ⟨node, hn.congr hgrows.nodes⟩, hstock⟩
  | session _ hfit hn hends ih =>
    subst hn
    obtain ⟨p, -, -, hdrained, -⟩ := ends_runWorker hfit ih.1 ih.2 hends
    exact ⟨Or.inr hdrained.hosts, hdrained.stock⟩

/-! ## The result -/

theorem exists_delivered (o : Except String (Option Response)) : ∃ answer, Delivered o answer := by
  rcases o with exc | _ | r
  · exact ⟨.error exc, rfl⟩
  · exact ⟨.ok none, rfl⟩
  · have hcarried : ∃ d, r.Carried d := by
      cases r with
      | step x =>
        exact ⟨[("id", .str x.id), ("job_id", .str x.jobId), ("tool_name", .str x.toolName),
          ("input_json", .obj x.inputJson), ("assignment_epoch", .int x.assignmentEpoch)],
          ⟨rfl, rfl, rfl, rfl⟩, rfl⟩
      | _ => exact ⟨[], trivial⟩
    obtain ⟨d, hd⟩ := hcarried
    exact ⟨.ok (some d), d, rfl, hd⟩

/-- Every operation is answered. -/
theorem Deployment.Live.total {D : Deployment} (hlive : D.Live) (o : LoopOp) (db : Db) :
    ∃ answer db', D.sem o db answer db' := by
  cases o with
  | post request =>
    obtain ⟨env, henv⟩ := hlive.ambient
    obtain ⟨answer, hanswer⟩ := exists_delivered
      (transportAnswer ((D.app.handle ⟨request.call, request.headers, env⟩).exec db).1)
    exact ⟨answer, _, db, .refl, env, _, henv, rfl, hanswer⟩
  | collectMetrics =>
    obtain ⟨metrics, hm⟩ := hlive.metrics
    exact ⟨.ok metrics, db, db, .refl, ⟨metrics, hm, rfl⟩, rfl⟩
  | runStep step =>
    obtain ⟨answer, ha⟩ := hlive.runner step
    exact ⟨answer, db, db, .refl, ha, rfl⟩
  | sleep seconds => exact ⟨.ok (), db, db, .refl, rfl, rfl⟩

section
variable {D : Deployment} {str : Json → String} {h : Host} {config : WorkerLoopConfig} {N fuel : ℕ}
  {db : Db}

end

/-- A Worker of one poll for the sample Controller. -/
def loneWorker : WorkerLoopConfig :=
  { nodeId := "mac", nodeName := "Mac", sharedRoot := Posix.PurePath.ofString "/media"
    apiKey := "key", maxPolls := some 1 }

/-- The sample Controller, with a Worker whose runner completes its steps. -/
def sampleDeployment : Deployment where
  app := sampleApp
  ambient env := env.fs = sampleFs
  metrics m := m = sampleHeartbeat
  runner _ answer := answer = .ok [("status", .str "completed")]

theorem sampleDeployment_fit : sampleDeployment.Fit plainHost loneWorker where
  executes := rfl
  named := by decide
  key := by decide
  root env henv := by
    rw [show env.fs = sampleFs from henv]
    exact ⟨by decide +kernel, by decide +kernel⟩
  valid m hm := by rw [show m = sampleHeartbeat from hm]; decide +kernel
  cpu m hm := by rw [show m = sampleHeartbeat from hm]; decide +kernel
  memory m hm := by rw [show m = sampleHeartbeat from hm]; decide +kernel
  disk m hm := by rw [show m = sampleHeartbeat from hm]; decide +kernel
  thermal m hm := by rw [show m = sampleHeartbeat from hm]; decide
  priorities kv hkv := by cases hkv

/-- A client has submitted a job. -/
def sampleSubmitted : Db :=
  ((sampleApp.handle (sampleRequest 1 (.createJob
    { goalType := "video_to_subtitle", inputFile := "/media/in.mp4", outputs := ["srt"] }))).exec
      Db.empty).2

end MediaOrchard
