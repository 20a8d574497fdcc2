/-
  Jobs are isolated on the shared storage.

  * `Plant.Rooted`, `Plant.Tidy`: the shared root is canonical, without symbolic
    links below it, and commands write only the path they are told to;
  * `FileOp.Step.writes`: only what an operation is to write is changed;
  * `Planning`: what holds of the steps and the requests in flight, kept by every
    action of the Controller (`Planning.act`);
  * `Attempt.Faithful`, `Attempt.Faithful.wrote`: an attempt writes only the files of
    its job and its mode;
  * `Site.Inv`, `Site.Run.inv`: the rows and the attempts in the runs of a site;
  * `jobs_isolated`: what the attempts for a job write.
-/
import MediaOrchard.Proof.Creation
import MediaOrchard.Proof.Execution
import MediaOrchard.Proof.Sandbox

namespace MediaOrchard

open Keyed Interleave Posix Effects

/-! ## Assumptions -/

/-- The shared root is canonical, and no symbolic link lies below it. -/
structure Plant.Rooted (P : Plant) (root : ResolvedPath) : Prop where
  clean : ∀ c ∈ root, Clean c
  real : ∀ h, P.host h → ∀ p : PurePath, p.absolute → (∀ c ∈ p.parts, Clean c) →
    root <+: p.parts → h.real p = p.parts

/-- Commands write only the path they are told to write. -/
def Plant.Tidy (P : Plant) : Prop :=
  ∀ h argv output d r d', P.host h → P.command h argv output d r d' → ∀ q,
    d'.entry q ≠ d.entry q → ∃ p, output = some p ∧ h.real p = q

variable {app : App} {P : Plant} {root : ResolvedPath}

/-- The root is canonical for the requests that a host of the plant sees. -/
theorem Plant.Rooted.canonicalRoot (hP : P.Rooted root) {env : Ambient} (hs : P.Sees env) :
    CanonicalRoot root env.fs := by
  obtain ⟨h, hh, hres⟩ := hs
  have hself : ∀ q : ResolvedPath, (∀ c ∈ q, Clean c) → root <+: q → h.resolve q.str = q := by
    intro q hq hpre
    have hreal := hP.real h hh ⟨true, q, fun c hc => (hq c hc).toSegment⟩ rfl hq hpre
    refine h.resolve_str (p := ⟨true, q, fun c hc => (hq c hc).toSegment⟩) ?_
    rw [hreal]
  have hout : ∀ c ∈ root ++ ["output"], Clean c := by
    intro c hc
    rcases List.mem_append.1 hc with hc | hc
    · exact hP.clean c hc
    · rw [List.mem_singleton.1 hc]
      decide
  rw [← hres] at hself
  exact ⟨hself root hP.clean (List.prefix_refl _), hself _ hout (List.prefix_append _ _)⟩

/-! ## Operations -/

/-- What is changed, other than by becoming a directory, is what the operation was to
    write. -/
theorem FileOp.Step.writes {h : Host} {o : FileOp} {d d' : Disk} {r : o.Ans} (hT : P.Tidy)
    (hh : P.host h) (hs : o.Step h (P.command h) d r d') {q : ResolvedPath}
    (hne : d'.entry q ≠ d.entry q)
    (hdir : ¬ (d.entry q = none ∧ d'.entry q = some .dir)) :
    ∃ p, o.target = some p ∧ h.real p = q := by
  cases o with
  | exist | isFile | isDir | size | iterdir | readText => exact absurd (hs.1 ▸ rfl) hne
  | mkdirs p =>
    rcases hs.created q with he | ⟨hnone, hd, -⟩
    exacts [absurd he hne, absurd ⟨hnone, hd⟩ hdir]
  | write p data =>
    by_cases hq : q = h.real p
    · exact ⟨p, rfl, hq.symm⟩
    · exact absurd (hs.other q hq) hne
  | command argv output timeout => exact hT h argv output d r d' hh hs q hne

/-! ## Attempts -/

theorem Place.clean_of_mem (config : WorkerRuntimeConfig) {pl : Place}
    (hpl : pl ∈ config.files) : Clean pl.dir ∧ ∀ c ∈ pl.name, Clean c := by
  have hall : ∀ pl ∈ realFiles ++ mockFiles, Clean pl.dir ∧ ∀ c ∈ pl.name, Clean c := by decide
  exact hall pl (config.files_subset hpl)

/-- The attempt runs a step planned for its job, on a host of the plant. -/
structure Attempt.Faithful (P : Plant) (root : ResolvedPath) (a : Attempt) : Prop where
  host : P.host a.host
  works : WorksFor root a.jobId a.step
  trail : Trail (runClaimedPipelineStep P.lib a.host a.config a.step) a.log a.prog
  moves : ∀ c ∈ a.log, c.op.Step a.host (P.command a.host) c.pre c.ans c.post

variable {a b : Attempt}

/-- A call of an attempt writes what it is told to write. -/
theorem Attempt.Faithful.target (ha : a.Faithful P root) (hT : P.Tidy) {c : FileCall}
    (hc : c ∈ a.log) {q : ResolvedPath} (hw : c.Writes a.host q) :
    ∃ p, c.op.target = some p ∧ a.host.real p = q := by
  rcases hw with hw | ⟨hne, hdir⟩
  · exact hw
  · exact (ha.moves c hc).writes hT ha.host hne hdir

theorem Attempt.Faithful.real (ha : a.Faithful P root) (hP : P.Rooted root) {pl : Place}
    {p : PurePath} (hp : Leads root a.jobId pl p) (hpl : pl ∈ a.config.files) :
    a.host.real p = pl.parts root a.jobId := by
  obtain ⟨hdir, hname⟩ := Place.clean_of_mem a.config hpl
  rw [← hp.2]
  refine hP.real a.host ha.host p hp.1 (fun c hc => ?_) (hp.2 ▸ List.prefix_append _ _)
  rw [hp.2, Place.parts] at hc
  simp only [List.cons_append, List.nil_append, List.mem_append, List.mem_cons] at hc
  rcases hc with hc | rfl | rfl | hc
  exacts [hP.clean c hc, hdir, ha.works.clean, hname c hc]

/-- **An attempt writes only the files of its job and its mode.** -/
theorem Attempt.Faithful.wrote (ha : a.Faithful P root) (hP : P.Rooted root) (hT : P.Tidy)
    {q : ResolvedPath} (hw : a.Wrote q) : ∃ pl ∈ a.config.files, q = pl.parts root a.jobId := by
  obtain ⟨c, hc, hw⟩ := hw
  obtain ⟨p, hp, rfl⟩ := ha.target hT hc hw
  obtain ⟨pl, hpl, hlead⟩ :=
    ((runClaimedPipelineStep_uses hP.clean ha.works).trail ha.trail).2 c hc p hp
  exact ⟨pl, hpl, ha.real hP hlead hpl⟩

/-! ## The Controller -/

/-- What holds of the requests in flight and of the steps. -/
structure Planning (P : Plant) (root : ResolvedPath)
    (c : Conf Db HttpError Response Request) : Prop where
  sees : ∀ q ∈ c.procs, P.Sees q.1.ambient
  step : ∀ k x, c.db.steps.get? k = some x →
    x.Planned root ∧ (c.db.jobs.get? x.jobId).isSome
  sole : ∀ k k' x x', c.db.steps.get? k = some x → c.db.steps.get? k' = some x' →
    x.jobId = x'.jobId → k = k'

/-- Every job has an input file at or below the root, without its own id. -/
def Inputs (root : ResolvedPath) (db : Db) : Prop :=
  ∀ k j, db.jobs.get? k = some j →
    ∃ input : ResolvedPath, j.inputFile = input.str ∧ root <+: input ∧ k ∉ input

/-- The id `J` does not occur in the path that a request to create a job names. -/
def Unnamed (c : Conf Db HttpError Response Request) (J : String) : Prop :=
  ∀ q ∈ c.procs, ∀ body, q.1.call = .createJob body →
    J ∉ q.1.ambient.fs.resolve body.inputFile

variable {db₀ : Db} {tr : List (Trans app.controller)} {c : Conf Db HttpError Response Request}

theorem Planning.init (h₀ : db₀.jobs.rows = [] ∧ db₀.steps.rows = []) :
    Planning P root ⟨db₀, []⟩ where
  sees := by simp
  step k x hx := absurd (Table.mem_of_get? hx) (by simp [h₀.2])
  sole k k' x x' hx := absurd (Table.mem_of_get? hx) (by simp [h₀.2])

theorem mem_procs_of_by {t : Trans app.controller} {i : ℕ} {r : Request} (h : t.By i r) :
    ∃ p, (r, p) ∈ t.pre.procs := by
  obtain ⟨⟨r', p⟩, hp, rfl⟩ := Option.map_eq_some_iff.1 h.2
  exact ⟨p, List.mem_of_getElem? hp⟩

/-- A step is the only one of its job, still. -/
theorem Planning.act_sole (h : Planning P root c) (hr : app.Run db₀ tr c)
    (a : Act Request String) {k k' : String} {x x' : Step}
    (hx : (app.controller.step c a).db.steps.get? k = some x)
    (hx' : (app.controller.step c a).db.steps.get? k' = some x') (he : x.jobId = x'.jobId) :
    k = k' := by
  have hrun : app.Run db₀ (⟨c, a⟩ :: tr) (app.controller.step c a) := hr.step a
  have hold : ∀ k k' x y, c.db.steps.get? k = none →
      (app.controller.step c a).db.steps.get? k = some x → c.db.steps.get? k' = some y →
      x.jobId ≠ y.jobId := by
    intro k k' x y hn hx hy he
    obtain ⟨-, -, -, -, -, -, -, -, hnone, -⟩ :=
      hrun.created_step (t := ⟨c, a⟩) List.mem_cons_self hn hx
    have hsome := (h.step k' y hy).2
    rw [← he, hnone] at hsome
    cases hsome
  rcases (hrun.rowStep (t := ⟨c, a⟩) List.mem_cons_self k).kept hx with hn | ⟨y, hy, hs⟩ <;>
    rcases (hrun.rowStep (t := ⟨c, a⟩) List.mem_cons_self k').kept hx' with hn' | ⟨y', hy', hs'⟩
  · -- both are new: one request has inserted them
    obtain ⟨i, r, body, inputFile, outputDir, hby, -, rfl, -⟩ :=
      hrun.created_step (t := ⟨c, a⟩) List.mem_cons_self hn hx
    obtain ⟨i', r', body', inputFile', outputDir', hby', -, rfl, -⟩ :=
      hrun.created_step (t := ⟨c, a⟩) List.mem_cons_self hn' hx'
    obtain rfl := hby.unique hby'
    rw [← Table.key_of_get? hx, ← Table.key_of_get? hx']
    rfl
  · exact absurd (he.trans hs'.jobId) (hold k k' x y' hn hx hy')
  · exact absurd (he.symm.trans hs.jobId) (hold k' k x' y hn' hx' hy)
  · exact h.sole k k' y y' hy hy' (hs.jobId.symm.trans (he.trans hs'.jobId))

/-- **One action of the Controller** keeps the plans. -/
theorem Planning.act (h : Planning P app.sharedRoot c) (hP : P.Rooted app.sharedRoot)
    (hr : app.Run db₀ tr c) (a : Act Request String)
    (ha : ∀ r, a = .arrive r → P.Sees r.ambient) :
    Planning P app.sharedRoot (app.controller.step c a) := by
  have hrun : app.Run db₀ (⟨c, a⟩ :: tr) (app.controller.step c a) := hr.step a
  have hjobs : ∀ k, (c.db.jobs.get? k).isSome →
      ((app.controller.step c a).db.jobs.get? k).isSome :=
    (hrun.rely (t := ⟨c, a⟩) List.mem_cons_self).job
  refine ⟨fun q hq => ?_, fun k x hx => ?_, fun k k' x x' hx hx' he => h.act_sole hr a hx hx' he⟩
  · obtain ⟨i, hi⟩ := List.getElem?_of_mem hq
    rcases Service.step_arrived hi with ⟨hact, -, -⟩ | ⟨p, hp⟩
    · exact ha _ hact
    · exact h.sees (q.1, p) (List.mem_of_getElem? hp)
  · rcases (hrun.rowStep (t := ⟨c, a⟩) List.mem_cons_self k).kept hx with hn | ⟨y, hy, hsame⟩
    · obtain ⟨i, r, body, inputFile, outputDir, hby, hp, rfl, -, hj⟩ :=
        hrun.created_step (t := ⟨c, a⟩) List.mem_cons_self hn hx
      obtain ⟨p, hmem⟩ := mem_procs_of_by hby
      exact ⟨(hp.planned (hP.canonicalRoot (h.sees _ hmem))).1, hj⟩
    · obtain ⟨⟨hclean, hout, hwork⟩, hj⟩ := h.step k y hy
      refine ⟨⟨?_, ?_, ?_⟩, ?_⟩
      · rw [hsame.jobId]
        exact hclean
      · rw [hsame.jobId, hsame.inputJson]
        exact hout
      · rw [hsame.jobId, hsame.inputJson]
        exact hwork
      · rw [hsame.jobId]
        exact hjobs _ hj

/-- One action of the Controller keeps the input files, ids being fresh. -/
theorem Inputs.act (h : Inputs app.sharedRoot c.db) (hpl : Planning P app.sharedRoot c)
    (hP : P.Rooted app.sharedRoot) (hr : app.Run db₀ tr c) (a : Act Request String)
    (hfresh : ∀ J, c.db.jobs.get? J = none →
      ((app.controller.step c a).db.jobs.get? J).isSome → Unnamed c J) :
    Inputs app.sharedRoot (app.controller.step c a).db := by
  have hrun : app.Run db₀ (⟨c, a⟩ :: tr) (app.controller.step c a) := hr.step a
  intro k j hj
  rcases (hrun.jobStep (t := ⟨c, a⟩) List.mem_cons_self k).kept hj with hn | ⟨y, hy, hin⟩
  · obtain ⟨i, r, body, inputFile, outputDir, hby, hp, rfl⟩ :=
      hrun.created_job (t := ⟨c, a⟩) List.mem_cons_self hn hj
    obtain ⟨p, hmem⟩ := mem_procs_of_by hby
    obtain ⟨-, rfl, hroot⟩ := hp.planned (hP.canonicalRoot (hpl.sees _ hmem))
    refine ⟨_, rfl, hroot, ?_⟩
    exact hfresh k hn (Option.isSome_iff_exists.2 ⟨_, hj⟩) _ hmem body hp.call
  · rw [hin]
    exact h k y hy

/-! ## Sites -/

/-- A move that creates the job `J`. -/
def Creates (m : Site app × Site app) (J : String) : Prop :=
  m.1.db.jobs.get? J = none ∧ (m.2.db.jobs.get? J).isSome

/-- The id `J` is fresh: it occurs in no path that exists and in none that a request
    received so far names. -/
structure Site.Fresh (s : Site app) (J : String) : Prop where
  path : ∀ q, (s.disk.entry q).isSome → J ∉ q
  request : Unnamed s.world.conf J

/-- The invariant of a site. -/
structure Site.Inv (P : Plant) (db₀ : Db) (s : Site app) : Prop where
  reach : World.Reach (World.init app.system db₀) s.world
  planning : Planning P app.sharedRoot s.world.conf
  attempt : ∀ a ∈ s.attempts, a.Faithful P app.sharedRoot ∧
    ∃ k x, s.db.steps.get? k = some x ∧ x.Carried a.step

theorem Site.Inv.run {s : Site app} (h : Site.Inv P db₀ s) :
    ∃ tr, app.Run db₀ tr s.world.conf := h.reach.inv.run

/-- A move of the system is at most one action of the Controller, and no arrival of a
    request that sees another file system. -/
theorem Plant.Free.conf {w : World app.system}
    {m : Move Request String Ambient (WorkerAgent × Dict) Dict String} (hm : P.Free m) :
    (w.step m).conf = w.conf ∨ ∃ a, (w.step m).conf = app.controller.step w.conf a ∧
      ∀ r, a = .arrive r → P.Sees r.ambient := by
  cases m with
  | service a =>
    dsimp only [World.step]
    split_ifs
    · refine Or.inr ⟨a, rfl, fun r hr => ?_⟩
      subst hr
      exact hm
    · exact Or.inl rfl
  | deliver m env =>
    dsimp only [World.step]
    split
    · refine Or.inr ⟨.arrive (app.system.wire _ env), rfl, fun r hr => ?_⟩
      cases hr
      exact hm
    · exact Or.inl rfl
  | invoke | finish => exact absurd hm id
  | spawn => exact Or.inl rfl
  | post | lose =>
    dsimp only [World.step]
    split <;> exact Or.inl rfl
  | receive =>
    dsimp only [World.step]
    split
    · split <;> exact Or.inl rfl
    · exact Or.inl rfl

theorem invoke_conf (w : World app.system) (c : ℕ) : (w.step (.invoke c)).conf = w.conf := by
  dsimp only [World.step]
  split <;> rfl

theorem finish_conf (w : World app.system) (c : ℕ) (o : Except String Dict) :
    (w.step (.finish c o)).conf = w.conf := by
  dsimp only [World.step]
  split <;> rfl

theorem Attempt.Faithful.op (ha : a.Faithful P root) {o : FileOp} {k : o.Ans → FileProg Dict}
    {r : o.Ans} {d d' : Disk} (hp : a.prog = .op o k)
    (hs : o.Step a.host (P.command a.host) d r d') : Attempt.Faithful P root
      { a with prog := k r, log := ⟨o, r, d, d'⟩ :: a.log } where
  host := ha.host
  works := ha.works
  trail := .step r d d' (hp ▸ ha.trail)
  moves c hc := by
    rcases List.mem_cons.1 hc with rfl | hc
    exacts [hs, ha.moves c hc]

/-- A claimed step that a process begins to run is the step of a job. -/
theorem Step.Carried.worksFor {x : Step} {step : Dict} (hc : x.Carried step)
    (hx : x.Planned root) : WorksFor root x.jobId step :=
  ⟨hx.clean, hc.jobId, x.inputJson, hc.inputJson, hx.output, hx.work⟩

theorem WorksFor.jobId_eq {J : String} (h : WorksFor root J a.step) : a.jobId = J := by
  have hreq : requiredStepStr a.step "job_id" = .ok J := by
    unfold requiredStepStr
    rw [h.jobId]
    exact if_neg h.clean.ne_empty
  show ((requiredStepStr a.step "job_id").toOption).getD "" = J
  rw [hreq]
  rfl

theorem Step.Same.carried {x x' : Step} {step : Dict} (h : x.Same x') (hc : x.Carried step) :
    x'.Carried step where
  id := h.id ▸ hc.id
  jobId := h.jobId ▸ hc.jobId
  toolName := h.toolName ▸ hc.toolName
  inputJson := h.inputJson ▸ hc.inputJson

/-- An attempt works for the job of its row. -/
theorem Site.Inv.jobId_eq {s : Site app} (h : Site.Inv P db₀ s) {k : String} {x : Step}
    (hx : s.db.steps.get? k = some x) (hc : x.Carried a.step) : a.jobId = x.jobId :=
  (hc.worksFor (h.planning.step k x hx).1).jobId_eq

/-- The rows of the attempts stay. -/
theorem Site.Inv.carried {s : Site app} (h : Site.Inv P db₀ s) (act : Act Request String)
    (ha : a ∈ s.attempts) :
    ∃ k x, (app.controller.step s.world.conf act).db.steps.get? k = some x ∧ x.Carried a.step := by
  obtain ⟨tr, hrun⟩ := h.run
  have hrun' : app.Run db₀ (⟨s.world.conf, act⟩ :: tr) _ := hrun.step act
  obtain ⟨-, k, x, hx, hc⟩ := h.attempt a ha
  obtain ⟨x', hx', hs⟩ :=
    (hrun'.rowStep (t := ⟨s.world.conf, act⟩) List.mem_cons_self k).stays hx
  exact ⟨k, x', hx', hs.carried hc⟩

/-- A site where the Controller has not moved, and every attempt that is new is
    faithful to a row. -/
theorem Site.Inv.of_conf {s s' : Site app} (h : Site.Inv P db₀ s)
    (hreach : World.Reach (World.init app.system db₀) s'.world)
    (hconf : s'.world.conf = s.world.conf)
    (hnew : ∀ a ∈ s'.attempts, a ∈ s.attempts ∨ a.Faithful P app.sharedRoot ∧
      ∃ k x, s.db.steps.get? k = some x ∧ x.Carried a.step) : Site.Inv P db₀ s' where
  reach := hreach
  planning := hconf ▸ h.planning
  attempt a ha := by
    rw [Site.db, hconf]
    exact (hnew a ha).elim (h.attempt a) id

/-- **One move of a site** keeps the invariant. -/
theorem Site.Inv.next {s s' : Site app} (h : Site.Inv P db₀ s) (hP : P.Rooted app.sharedRoot)
    (hn : Site.Next P s s') : Site.Inv P db₀ s' := by
  cases hn with
  | world m hm =>
    rcases hm.conf (w := s.world) with he | ⟨act, he, hact⟩
    · exact h.of_conf (h.reach.step m) he fun a ha => Or.inl ha
    · obtain ⟨tr, hrun⟩ := h.run
      refine ⟨h.reach.step m, ?_, fun a ha => ⟨(h.attempt a ha).1, ?_⟩⟩
      · show Planning P app.sharedRoot (s.world.step m).conf
        rw [he]
        exact h.planning.act hP hrun act hact
      · rw [Site.db, he]
        exact h.carried act ha
  | @invoke c step k log x config host hp hx hc hh =>
    refine h.of_conf (h.reach.step (.invoke c)) (invoke_conf _ c) fun a ha => ?_
    refine (List.mem_append.1 ha).imp_right fun ha => ?_
    have hget := Table.get?_of_mem hx
    have hw := hc.worksFor (h.planning.step x.id x hget).1
    obtain rfl := List.mem_singleton.1 ha
    refine ⟨⟨hh, ?_, .start, by simp⟩, x.id, x, hget, hc⟩
    rw [h.jobId_eq hget hc]
    exact hw
  | @op i a o k r d ha hp hs =>
    refine h.of_conf h.reach rfl fun b hb => ?_
    refine (List.mem_or_eq_of_mem_set hb).imp_right fun hb => ?_
    obtain ⟨hfaith, hrow⟩ := h.attempt a (List.mem_of_getElem? ha)
    subst hb
    exact ⟨hfaith.op hp hs, hrow⟩
  | @finish a o k log ha ho hp =>
    exact h.of_conf (h.reach.step (.finish a.client o)) (finish_conf _ _ o) fun b hb => Or.inl hb
  | foreign hd => exact h.of_conf h.reach rfl fun b hb => Or.inl hb

variable {disk : Disk} {moves : List (Site app × Site app)} {s : Site app}

/-- **The invariant of a run.** -/
theorem Site.Run.inv (hP : P.Rooted app.sharedRoot) (h₀ : db₀.jobs.rows = [] ∧ db₀.steps.rows = [])
    (hr : Site.Run P (.init app db₀ disk) moves s) : Site.Inv P db₀ s := by
  induction hr with
  | init => exact ⟨.refl, Planning.init h₀, by simp [Site.init]⟩
  | step _ hn ih => exact ih.next hP hn

/-- A move of the site is at most one action of the Controller. -/
theorem Site.Next.conf {s s' : Site app} (hn : Site.Next P s s') :
    s'.world.conf = s.world.conf ∨
      ∃ a, s'.world.conf = app.controller.step s.world.conf a := by
  cases hn with
  | world m hm => exact hm.conf.imp_right fun ⟨a, he, _⟩ => ⟨a, he⟩
  | invoke => exact Or.inl (invoke_conf _ _)
  | finish => exact Or.inl (finish_conf _ _ _)
  | op | foreign => exact Or.inl rfl

/-- The input files in a run, ids being fresh. -/
theorem Site.Run.inputs (hP : P.Rooted app.sharedRoot)
    (h₀ : db₀.jobs.rows = [] ∧ db₀.steps.rows = [])
    (hr : Site.Run P (.init app db₀ disk) moves s)
    (hfresh : ∀ m ∈ moves, ∀ J, Creates m J → m.1.Fresh J) : Inputs app.sharedRoot s.db := by
  induction hr with
  | init =>
    intro k j hj
    have hnil : (Site.init app db₀ disk).db.jobs.rows = [] := h₀.1
    have hmem := Table.mem_of_get? hj
    rw [hnil] at hmem
    cases hmem
  | @step tr s s' hr hn ih =>
    have hin := ih fun m hm => hfresh m (List.mem_cons_of_mem _ hm)
    obtain ⟨tr, hrun⟩ := (hr.inv hP h₀).run
    rcases hn.conf with he | ⟨a, he⟩
    · rw [Site.db, he]
      exact hin
    · rw [Site.db, he]
      refine hin.act (hr.inv hP h₀).planning hP hrun a fun J hJ hJ' => ?_
      exact (hfresh _ List.mem_cons_self J ⟨hJ, by rw [Site.db, he]; exact hJ'⟩).request

/-! ## Making runs -/

/-- A move of the system. -/
abbrev SysMove := Move Request String Ambient (WorkerAgent × Dict) Dict String

/-- The moves of a site of which only the system moves, latest first. -/
def Site.trace (s : Site app) : List SysMove → List (Site app × Site app)
  | [] => []
  | m :: ms => trace ⟨s.world.step m, s.disk, s.attempts⟩ ms ++
      [(s, ⟨s.world.step m, s.disk, s.attempts⟩)]

variable {s₀ : Site app}

/-- The system moves. -/
theorem Site.Run.worlds {w : World app.system} {d : Disk} {as : List Attempt}
    (hr : Site.Run P s₀ moves ⟨w, d, as⟩) {ms : List SysMove} (hm : ∀ m ∈ ms, P.Free m) :
    Site.Run P s₀ (Site.trace ⟨w, d, as⟩ ms ++ moves) ⟨w.after ms, d, as⟩ := by
  induction ms generalizing w moves with
  | nil => exact hr
  | cons m ms ih =>
    have hnext := ih (hr.step (.world m (hm m List.mem_cons_self)))
      fun m' hm' => hm m' (List.mem_cons_of_mem m hm')
    rw [Site.trace, List.append_assoc]
    exact hnext

/-- An attempt performs its operations, and nothing else happens. -/
theorem Site.Run.ops (hr : Site.Run P s₀ moves s) {i : ℕ} (ha : s.attempts[i]? = some a)
    {cs : List FileCall} {q : FileProg Dict} {d : Disk}
    (hreach : Reaches (FileOp.Step a.host (P.command a.host)) a.prog s.disk cs q d) :
    ∃ moves', Site.Run P s₀ (moves' ++ moves)
      ⟨s.world, d, s.attempts.set i { a with prog := q, log := cs ++ a.log }⟩ ∧
      ∀ m ∈ moves', m.2.world = m.1.world := by
  have hlt : i < s.attempts.length := (List.getElem?_eq_some_iff.1 ha).1
  induction hreach with
  | start =>
    refine ⟨[], ?_, by simp⟩
    have hset : s.attempts.set i a = s.attempts := by
      obtain ⟨-, rfl⟩ := List.getElem?_eq_some_iff.1 ha
      exact List.set_getElem_self hlt
    rw [List.nil_append, List.nil_append, hset]
    exact hr
  | @step cs o k t r t' _ hs ih =>
    obtain ⟨moves', hrun, hw⟩ := ih
    have hnext := hrun.step (.op (List.getElem?_set_self hlt) rfl hs)
    rw [List.set_set] at hnext
    refine ⟨_ :: moves', hnext, fun m hm => ?_⟩
    rcases List.mem_cons.1 hm with rfl | hm
    exacts [rfl, hw m hm]

/-! ## Isolation -/

/-- Below the directory of the job `J` that `root` holds. -/
def Below (root : ResolvedPath) (J : String) (q : ResolvedPath) : Prop :=
  ∃ d ∈ ["output", "work"], ∃ c rest, q = root ++ [d, J] ++ c :: rest

theorem Place.below (config : WorkerRuntimeConfig) {pl : Place} (hpl : pl ∈ config.files)
    (J : String) : Below root J (pl.parts root J) := by
  have hall : ∀ pl ∈ realFiles ++ mockFiles, pl.dir ∈ ["output", "work"] ∧ pl.name ≠ [] := by
    decide
  obtain ⟨hdir, hname⟩ := hall pl (config.files_subset hpl)
  obtain ⟨c, rest, hc⟩ := List.exists_cons_of_ne_nil hname
  exact ⟨pl.dir, hdir, c, rest, by rw [Place.parts, hc, List.append_assoc]⟩

/-- **Jobs are isolated.**  In every run of a site, ids being fresh, every job has an
    input file at or below the shared root, which its attempts do not write; every
    attempt writes files strictly below the output or the work directory of its job
    only, none that an attempt for another job writes, and none that existed when its
    job was created. -/
theorem jobs_isolated (hP : P.Rooted app.sharedRoot) (hT : P.Tidy)
    (h₀ : db₀.jobs.rows = [] ∧ db₀.steps.rows = [])
    (hr : Site.Run P (.init app db₀ disk) moves s)
    (hfresh : ∀ m ∈ moves, ∀ J, Creates m J → m.1.Fresh J) :
    (∀ j ∈ s.db.jobs.rows, ∃ input : ResolvedPath, j.inputFile = input.str ∧
      app.sharedRoot <+: input ∧ ∀ a ∈ s.attempts, a.jobId = j.id → ¬ a.Wrote input) ∧
    (∀ a ∈ s.attempts, (∃ j ∈ s.db.jobs.rows, j.id = a.jobId) ∧
      ∀ q, a.Wrote q → Below app.sharedRoot a.jobId q) ∧
    (∀ a ∈ s.attempts, ∀ b ∈ s.attempts, a.jobId ≠ b.jobId → ∀ q, a.Wrote q → ¬ b.Wrote q) ∧
    ∀ m ∈ moves, ∀ a ∈ s.attempts, Creates m a.jobId → ∀ q, (m.1.disk.entry q).isSome →
      ¬ a.Wrote q := by
  have hinv := hr.inv hP h₀
  have hwrote : ∀ a ∈ s.attempts, ∀ q, a.Wrote q →
      ∃ pl ∈ a.config.files, q = pl.parts app.sharedRoot a.jobId := fun a ha q hw =>
    (hinv.attempt a ha).1.wrote hP hT hw
  have hmem : ∀ a ∈ s.attempts, ∀ q, a.Wrote q → a.jobId ∈ q := by
    intro a ha q hw
    obtain ⟨pl, -, rfl⟩ := hwrote a ha q hw
    exact pl.mem_parts _ _
  refine ⟨fun j hj => ?_, fun a ha => ⟨?_, fun q hw => ?_⟩, fun a ha b hb hne q hw hw' => ?_,
    fun m hm a ha hc q hq hw => ?_⟩
  · obtain ⟨input, hin, hroot, hnot⟩ := hr.inputs hP h₀ hfresh j.id j (Table.get?_of_mem hj)
    refine ⟨input, hin, hroot, fun a ha haj hw => hnot ?_⟩
    rw [← haj]
    exact hmem a ha input hw
  · obtain ⟨-, k, x, hx, hc⟩ := hinv.attempt a ha
    obtain ⟨j, hj⟩ := Option.isSome_iff_exists.1 (hinv.planning.step k x hx).2
    exact ⟨j, Table.mem_of_get? hj, (Table.key_of_get? hj).trans (hinv.jobId_eq hx hc).symm⟩
  · obtain ⟨pl, hpl, rfl⟩ := hwrote a ha q hw
    exact Place.below a.config hpl a.jobId
  · obtain ⟨pl, -, rfl⟩ := hwrote a ha q hw
    obtain ⟨pl', -, he⟩ := hwrote b hb _ hw'
    exact hne (Place.parts_inj he).2
  · exact (hfresh m hm _ hc).path q hq (hmem a ha q hw)

/-! ## A sample site -/

/-- A plant of one host, where every command succeeds and nothing else happens. -/
def samplePlant : Plant where
  lib := ⟨fun _ => "\x7b\x7d", fun _ => .error "", fun _ => "", id⟩
  host h := h = sampleTree.host
  command _ := toolCommand sampleTree sampleTool
  foreign _ _ := False

theorem samplePlant_rooted : samplePlant.Rooted sampleApp.sharedRoot where
  clean := by decide
  real h hh p habs hc _ := by
    subst hh
    exact (sampleTree.canonical habs fun c hp => (hc c hp).ne_dotdot).real_self

theorem samplePlant_tidy : samplePlant.Tidy := by
  intro h argv output d r d' hh hc q hne
  obtain rfl : h = sampleTree.host := hh
  cases output with
  | none => exact absurd (hc.2 ▸ rfl) hne
  | some p =>
    rcases hc with ⟨-, hw⟩ | ⟨-, rfl⟩
    · by_contra hno
      exact hne (hw.other q fun hq => hno ⟨p, rfl, hq.symm⟩)
    · exact absurd rfl hne

/-- The node `mac` is registered; there are no jobs. -/
def sampleSiteDb : Db :=
  { Db.empty with nodes := (sampleQueue "video_to_subtitle_pipeline").nodes }

/-- The runs of the sample site. -/
abbrev SiteRun : List (Site sampleApp × Site sampleApp) → Site sampleApp → Prop :=
  Site.Run samplePlant (.init sampleApp sampleSiteDb sampleRootDisk.toDisk)

/-- A request that sees the disk of the sample plant; what it creates has `hex` in its id. -/
def siteRequest (hex : String) (now : ℤ) (call : Call) : Request :=
  { sampleRequest now call with
    ambient := { (sampleRequest now call).ambient with
      jobHex := hex, planHex := hex, stepHex := hex,
      fs := sampleTree.host.fileSystem Disk.empty } }

/-- The input of the step with `hex` in its id. -/
def sampleInput (hex : String) : Dict := [("input_file", .str "/media/in.mp4"),
  ("output_dir", .str ("/media/output/job_" ++ hex)), ("work_dir", .str ("/media/work/job_" ++ hex)),
  ("requested_outputs", .arr [.str "srt"]), ("language", .null), ("quality", .str "standard")]

/-- The step, as `claim-next` returns it under an epoch. -/
def sampleClaim (hex : String) (e : ℤ) : Dict := [("id", .str ("step_" ++ hex)),
  ("job_id", .str ("job_" ++ hex)), ("tool_name", .str "video_to_subtitle_pipeline"),
  ("assignment_epoch", .int e), ("input_json", .obj (sampleInput hex))]

/-- A request from elsewhere, the `n`-th, served. -/
def serveMoves (n : ℕ) (r : Request) : List SysMove :=
  .service (.arrive r) :: List.replicate 5 (.service (.act n))

/-- Process `c` sends its next request and has its answer: message `m` is handled by the
    `n`-th handler. -/
def sendMoves (c m n : ℕ) (now : ℤ) : List SysMove :=
  [.post c, .deliver m (siteRequest "" now (.listNodes 0 0)).ambient] ++
    List.replicate 5 (.service (.act n)) ++ [.receive c]

/-- A job is created, its step assigned under epoch 1 and started by process `c`; the next
    handler is the `n`-th. -/
def jobMoves (hex : String) (c n : ℕ) (now : ℤ) : List SysMove :=
  serveMoves n (siteRequest hex now (.createJob
    { goalType := "video_to_subtitle", inputFile := "/media/in.mp4", outputs := ["srt"] })) ++
  serveMoves (n + 1) (siteRequest "" (now + 1) (.heartbeatNode "mac" sampleHeartbeat)) ++
  .spawn (sampleWorker, sampleClaim hex 1) :: sendMoves c c (n + 2) (now + 2)

theorem serveMoves_free {n : ℕ} {hex : String} {now : ℤ} {call : Call} :
    ∀ m ∈ serveMoves n (siteRequest hex now call), samplePlant.Free m := by
  intro m hm
  rcases List.mem_cons.1 hm with rfl | hm
  · exact ⟨_, rfl, rfl⟩
  · rw [List.eq_of_mem_replicate hm]
    trivial

theorem sendMoves_free {c m n : ℕ} {now : ℤ} :
    ∀ m' ∈ sendMoves c m n now, samplePlant.Free m' := by
  intro m' hm
  simp only [sendMoves, List.mem_append, List.mem_cons, List.not_mem_nil, or_false] at hm
  rcases hm with ((rfl | rfl) | hm) | rfl
  · trivial
  · exact ⟨_, rfl, rfl⟩
  · rw [List.eq_of_mem_replicate hm]
    trivial
  · trivial

theorem jobMoves_free {hex : String} {c n : ℕ} {now : ℤ} :
    ∀ m ∈ jobMoves hex c n now, samplePlant.Free m := by
  intro m hm
  simp only [jobMoves, List.mem_append, List.mem_cons] at hm
  rcases hm with (hm | hm) | rfl | hm
  exacts [serveMoves_free m hm, serveMoves_free m hm, trivial, sendMoves_free m hm]

/-! ### Attempts of the sample site -/

/-- The attempt of process `c` at its step, begun. -/
def sampleAttempt (c : ℕ) (step : Dict) : Attempt :=
  ⟨c, step, ⟨"mac", "deterministic", "python3", "tiny", 120⟩, sampleTree.host,
    runClaimedPipelineStep samplePlant.lib sampleTree.host
      ⟨"mac", "deterministic", "python3", "tiny", 120⟩ step, []⟩

/-- The attempt carried out: its end, its operations and the disk. -/
def attemptRun (step : Dict) (d : FiniteDisk) : Except Exn Dict × List FileCall × FiniteDisk :=
  play (FileOp.exec sampleTree sampleTool) FiniteDisk.toDisk (sampleAttempt 0 step).prog d []

/-- The attempt, ended. -/
def endedAttempt (c : ℕ) (step : Dict) (d : FiniteDisk) : Attempt :=
  { sampleAttempt c step with prog := Eff.end (attemptRun step d).1, log := (attemptRun step d).2.1 }

/-- The first log of a job. -/
def sampleLog (hex : String) : ResolvedPath :=
  ["media", "output", "job_" ++ hex, "logs", "probe_media.log"]

/-- The calls are told to write the file. -/
def writesTo (cs : List FileCall) (q : ResolvedPath) : Bool :=
  cs.any fun c => match c.op.target with
    | some p => sampleTree.host.real p = q
    | none => false

theorem endedAttempt_wrote {c : ℕ} {step : Dict} {d : FiniteDisk} {q : ResolvedPath}
    (h : writesTo (attemptRun step d).2.1 q) : (endedAttempt c step d).Wrote q := by
  obtain ⟨call, hcall, hw⟩ := List.any_eq_true.1 h
  refine ⟨call, hcall, Or.inl ?_⟩
  split at hw
  · rename_i p hp
    exact ⟨p, hp, of_decide_eq_true hw⟩
  · cases hw

/-- The step that process `c` is about to run. -/
def nextRun (w : World sampleApp.system) (c : ℕ) : Option Dict :=
  match w.procs[c]? with
  | some ⟨.run step _, .idle, _⟩ => some step
  | _ => none

theorem nextRun_eq {w : World sampleApp.system} {c : ℕ} {step : Dict}
    (h : nextRun w c = some step) :
    ∃ k log, w.procs[c]? = some ⟨.run step k, .idle, log⟩ := by
  unfold nextRun at h
  split at h
  · rename_i k log hp
    cases h
    exact ⟨k, log, hp⟩
  · cases h

/-- The rows of the steps, as far as the runner reads them. -/
def runnerRows (w : World sampleApp.system) : List (String × String × String × Dict) :=
  w.conf.db.steps.rows.map fun x => (x.id, x.jobId, x.toolName, x.inputJson)

/-- The row of the step with `hex` in its id. -/
def runnerRow (hex : String) : String × String × String × Dict :=
  ("step_" ++ hex, "job_" ++ hex, "video_to_subtitle_pipeline", sampleInput hex)

theorem carried_of_row {x : Step} {hex : String} {e : ℤ}
    (h : (x.id, x.jobId, x.toolName, x.inputJson) = runnerRow hex) :
    x.Carried (sampleClaim hex e) := by
  obtain ⟨hid, hjob, htool, hinput⟩ : x.id = "step_" ++ hex ∧ x.jobId = "job_" ++ hex ∧
      x.toolName = "video_to_subtitle_pipeline" ∧ x.inputJson = sampleInput hex := by
    simpa only [runnerRow, Prod.mk.injEq] using h
  constructor
  · rw [hid]
    rfl
  · rw [hjob]
    rfl
  · rw [htool]
    rfl
  · rw [hinput]
    rfl

/-! ### Fresh ids -/

/-- The jobs that a move creates have ids that are none of the names and that no request
    has named. -/
def createsFresh (names : List String) (w : World sampleApp.system) (m : SysMove) : Bool :=
  (w.step m).conf.db.jobs.rows.all fun j => (w.conf.db.jobs.get? j.id).isSome ||
    (j.id ∉ names && w.conf.procs.all fun q => match q.1.call with
      | .createJob body => j.id ∉ q.1.ambient.fs.resolve body.inputFile
      | _ => true)

/-- So do the moves of a list. -/
def allFresh (names : List String) (w : World sampleApp.system) : List SysMove → Bool
  | [] => true
  | m :: ms => createsFresh names w m && allFresh names (w.step m) ms

/-- The ids of the jobs created in the moves are fresh. -/
def FreshIn (moves : List (Site sampleApp × Site sampleApp)) : Prop :=
  ∀ m ∈ moves, ∀ J, Creates m J → m.1.Fresh J

theorem Site.trace_fresh {s : Site sampleApp} {d : FiniteDisk} {ms : List SysMove}
    (hd : s.disk = d.toDisk) (h : allFresh d.names s.world ms) : FreshIn (s.trace ms) := by
  induction ms generalizing s with
  | nil => simp [Site.trace, FreshIn]
  | cons m ms ih =>
    rw [allFresh, Bool.and_eq_true] at h
    intro m' hm' J hJ
    rcases List.mem_append.1 hm' with hm' | hm'
    · exact ih (s := ⟨s.world.step m, s.disk, s.attempts⟩) hd h.2 m' hm' J hJ
    · obtain rfl := List.mem_singleton.1 hm'
      obtain ⟨hn, hs⟩ := hJ
      obtain ⟨j, hj⟩ := Option.isSome_iff_exists.1 hs
      obtain rfl : j.id = J := Table.key_of_get? hj
      have hfresh := List.all_eq_true.1 h.1 j (Table.mem_of_get? hj)
      have hnone : (s.world.conf.db.jobs.get? j.id).isSome = false := by
        rw [hn]
        rfl
      rw [hnone, Bool.false_or, Bool.and_eq_true, decide_eq_true_eq, List.all_eq_true] at hfresh
      refine ⟨fun q hq hmem => hfresh.1 (d.named q (hd ▸ hq) _ hmem), fun q hq body hbody => ?_⟩
      have hq := hfresh.2 q hq
      rw [hbody] at hq
      exact of_decide_eq_true hq

/-- Moves in which the Controller stands still create no job. -/
theorem FreshIn.idle {moves : List (Site sampleApp × Site sampleApp)} (hf : FreshIn moves)
    (moves' : List (Site sampleApp × Site sampleApp))
    (h : ∀ m ∈ moves', m.2.world.conf = m.1.world.conf) :
    FreshIn (moves' ++ moves) := by
  intro m hm J hJ
  rcases List.mem_append.1 hm with hm | hm
  · obtain ⟨hn, hs⟩ := hJ
    rw [Site.db, h m hm, hn] at hs
    cases hs
  · exact hf m hm J hJ

/-! ### Runs of the sample site -/

variable {tr : List (Site sampleApp × Site sampleApp)} {w : World sampleApp.system}
  {as : List Attempt} {c : ℕ} {hex : String} {e : ℤ}

/-- The system moves, and the ids that it makes are fresh. -/
theorem Site.Run.sample_worlds {d : FiniteDisk} {ms : List SysMove}
    (hr : SiteRun tr ⟨w, d.toDisk, as⟩) (hf : FreshIn tr) (hm : ∀ m ∈ ms, samplePlant.Free m)
    (h : allFresh d.names w ms) :
    ∃ tr', SiteRun tr' ⟨w.after ms, d.toDisk, as⟩ ∧ FreshIn tr' := by
  refine ⟨_, hr.worlds hm, fun m hmem => ?_⟩
  rcases List.mem_append.1 hmem with hmem | hmem
  · exact Site.trace_fresh rfl h m hmem
  · exact hf m hmem

/-- Process `c` begins to run its step. -/
theorem Site.Run.sample_begin {d : Disk} (hr : SiteRun tr ⟨w, d, as⟩)
    (hp : nextRun w c = some (sampleClaim hex e)) (hx : runnerRow hex ∈ runnerRows w) :
    SiteRun ((⟨w, d, as⟩, ⟨w.step (.invoke c), d, as ++ [sampleAttempt c (sampleClaim hex e)]⟩) :: tr)
      ⟨w.step (.invoke c), d, as ++ [sampleAttempt c (sampleClaim hex e)]⟩ := by
  obtain ⟨x, hmem, hrow⟩ := List.mem_map.1 hx
  obtain ⟨k, log, hproc⟩ := nextRun_eq hp
  exact hr.step (.invoke _ sampleTree.host hproc hmem (carried_of_row hrow) rfl)

/-- Process `c` runs its step to the end. -/
theorem Site.Run.sample_attempt {d : FiniteDisk} (hr : SiteRun tr ⟨w, d.toDisk, as⟩)
    (hp : nextRun w c = some (sampleClaim hex e)) (hx : runnerRow hex ∈ runnerRows w) :
    ∃ tr', SiteRun tr' ⟨w.step (.invoke c), (attemptRun (sampleClaim hex e) d).2.2.toDisk,
      as ++ [endedAttempt c (sampleClaim hex e) d]⟩ ∧ (FreshIn tr → FreshIn tr') := by
  have hbegin := hr.sample_begin hp hx
  have hreach : Reaches (FileOp.Step sampleTree.host (toolCommand sampleTree sampleTool))
      (sampleAttempt c (sampleClaim hex e)).prog d.toDisk (attemptRun (sampleClaim hex e) d).2.1
      (Eff.end (attemptRun (sampleClaim hex e) d).1) (attemptRun (sampleClaim hex e) d).2.2.toDisk :=
    reaches_play exec_step Reaches.start
  have hlast : (as ++ [sampleAttempt c (sampleClaim hex e)])[as.length]? =
      some (sampleAttempt c (sampleClaim hex e)) := by simp
  obtain ⟨tr', hops, hw⟩ := hbegin.ops hlast hreach
  rw [List.set_append_right _ _ (Nat.le_refl _), Nat.sub_self, List.set_cons_zero] at hops
  have hlog : (attemptRun (sampleClaim hex e) d).2.1 ++ (sampleAttempt c (sampleClaim hex e)).log =
      (attemptRun (sampleClaim hex e) d).2.1 := List.append_nil _
  rw [hlog] at hops
  refine ⟨_, hops, fun hf => (hf.idle [_] fun m hm => ?_).idle tr' fun m hm => ?_⟩
  · obtain rfl := List.mem_singleton.1 hm
    exact invoke_conf w c
  · exact congrArg World.conf (hw m hm)

/-- The system once `step_a` has been started under epoch 1. -/
def firstWorld : World sampleApp.system :=
  (World.init sampleApp.system sampleSiteDb).after (jobMoves "a" 0 0 1)

set_option maxRecDepth 20000 in
theorem firstWorld_ready : nextRun firstWorld 0 = some (sampleClaim "a" 1) ∧
    runnerRow "a" ∈ runnerRows firstWorld := ⟨rfl, List.mem_cons_self⟩

/-- Process 0 has started `step_a`. -/
theorem firstWorld_run : ∃ tr, SiteRun tr ⟨firstWorld, sampleRootDisk.toDisk, []⟩ ∧ FreshIn tr :=
  Site.Run.init.sample_worlds (by simp [FreshIn]) jobMoves_free (by decide +kernel)

/-- The system once `step_b`, of a second job, has been started as well. -/
def secondWorld : World sampleApp.system :=
  (firstWorld.step (.invoke 0)).after (jobMoves "b" 1 3 4)

set_option maxRecDepth 20000 in
theorem secondWorld_ready : nextRun secondWorld 1 = some (sampleClaim "b" 1) ∧
    runnerRow "b" ∈ runnerRows secondWorld := ⟨rfl, List.mem_cons_of_mem _ List.mem_cons_self⟩

/-- Two jobs, the second created when the attempt for the first has ended: both attempts
    write, each for its job. -/
theorem jobs_isolated_sample : ∃ moves s, SiteRun moves s ∧
    ∃ a ∈ s.attempts, ∃ b ∈ s.attempts, a.jobId = "job_a" ∧ b.jobId = "job_b" ∧
      a.Wrote (sampleLog "a") ∧ b.Wrote (sampleLog "b") ∧
      (∀ q, a.Wrote q → Below ["media"] "job_a" q ∧ ¬ b.Wrote q) ∧
      ∀ q, b.Wrote q → Below ["media"] "job_b" q := by
  obtain ⟨tr, hr, hf⟩ := firstWorld_run
  obtain ⟨tr, hr, hf'⟩ := hr.sample_attempt firstWorld_ready.1 firstWorld_ready.2
  obtain ⟨tr, hr, hf⟩ := hr.sample_worlds (hf' hf)
    (@jobMoves_free "b" 1 3 4) (by decide +kernel)
  obtain ⟨tr, hr, hf'⟩ := hr.sample_attempt secondWorld_ready.1 secondWorld_ready.2
  obtain ⟨-, hbelow, hapart, -⟩ :=
    jobs_isolated samplePlant_rooted samplePlant_tidy ⟨rfl, rfl⟩ hr (hf' hf)
  obtain ⟨ha, hb⟩ : endedAttempt 0 (sampleClaim "a" 1) sampleRootDisk ∈ _ ∧ _ ∈ _ :=
    ⟨List.mem_cons_self, List.mem_cons_of_mem _ List.mem_cons_self⟩
  refine ⟨_, _, hr, _, ha, _, hb, rfl, rfl, endedAttempt_wrote (by decide +kernel),
    endedAttempt_wrote (by decide +kernel), fun q hq => ⟨(hbelow _ ha).2 q hq, ?_⟩,
    (hbelow _ hb).2⟩
  exact hapart _ ha _ hb (by decide +kernel) q hq

end MediaOrchard
