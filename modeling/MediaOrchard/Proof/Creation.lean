/-
  The rows that `create_job` adds.

  * `Plans`: the request is accepted, with this input file and this output directory;
  * `handle_creation`: every action of a request that creates a job inserts the rows
    of an accepted request, or nothing;
  * `App.Run.created_job`, `App.Run.created_step`: a row that a transition of a run
    adds is such a row;
  * `RowStep.kept`, `JobStep.kept`: what never changes in a row;
  * `Step.Planned`: the directories of a job are its own, below the root
    (`Plans.planned`).
-/
import MediaOrchard.Proof.Rows
import MediaOrchard.Proof.Pipelines

namespace MediaOrchard

open Keyed Interleave Prog Posix

variable {app : App} {r : Request} {body : JobCreateRequest} {inputFile outputDir : ResolvedPath}

/-! ## Accepted requests -/

/-- The request is accepted. -/
structure Plans (app : App) (r : Request) (body : JobCreateRequest)
    (inputFile outputDir : ResolvedPath) : Prop where
  call : r.call = .createJob body
  input : resolveAllowlistedPath r.ambient.fs body.inputFile [app.sharedRoot.str] = .ok inputFile
  output : buildJobOutputDir r.ambient.fs (app.sharedRoot ++ ["output"] : ResolvedPath).str
    ("job_" ++ r.ambient.jobHex) = .ok outputDir

/-- The rows of an accepted request. -/
abbrev planRows (app : App) (r : Request) (body : JobCreateRequest)
    (inputFile outputDir : ResolvedPath) : Job × Plan × Step :=
  newRows app r.ambient body inputFile.str outputDir.str

/-- An action of a request that creates jobs inserts the rows of an accepted one, or
    nothing. -/
def Creation (app : App) (r : Request) (db db' : Db) : Prop :=
  ∀ body, r.call = .createJob body → db' = db ∨ ∃ inputFile outputDir,
    Plans app r body inputFile outputDir ∧
      db' = (insertJob db (planRows app r body inputFile outputDir).1
        (planRows app r body inputFile outputDir).2.1
        (planRows app r body inputFile outputDir).2.2).2

theorem createJob_creation (hr : r.call = .createJob body) :
    Acts (Creation app r) (createJob app r.ambient body) := by
  unfold createJob
  split_ifs
  · trivial
  split
  · trivial
  · rename_i inputFile hin
    dsimp only
    split
    · trivial
    · rename_i outputDir hout
      refine Spec.bind (Acts.atomic fun db => ?_) fun inserted => ?_
      · intro body' hr'
        obtain rfl : body = body' := Call.createJob.inj (hr.symm.trans hr')
        exact Or.inr ⟨inputFile, outputDir, ⟨hr, hin, hout⟩, rfl⟩
      · split_ifs
        · trivial
        · refine Spec.bind (Acts.read fun db _ _ => Or.inl rfl) fun o => ?_
          cases o with
          | none => trivial
          | some j => exact fun _ _ => trivial

/-- **Every action of a request keeps to `Creation`.** -/
theorem handle_creation (app : App) (r : Request) : Acts (Creation app r) (app.handle r) := by
  by_cases hr : ∃ body, r.call = .createJob body
  · obtain ⟨body, hr⟩ := hr
    refine Spec.bind (Q := fun _ _ => True) ?_ fun _ => ?_
    · unfold requireWorkerAuth
      dsimp only
      split
      exacts [trivial, trivial, fun _ _ => trivial]
    · rw [hr]
      exact Spec.bind (createJob_creation hr) fun _ _ _ => trivial
  · exact Acts.of_forall (fun db db' body hbody => absurd ⟨body, hbody⟩ hr) _

/-! ## Created rows -/

/-- The insertion stores the rows, or nothing. -/
theorem insertJob_cases (db : Db) (job : Job) (plan : Plan) (step : Step) :
    (insertJob db job plan step).2 = db ∨ ∃ jobs plans steps, db.jobs.insert? job = some jobs ∧
      db.steps.insert? step = some steps ∧
      (insertJob db job plan step).2 = { db with jobs := jobs, plans := plans, steps := steps } := by
  unfold insertJob
  split
  · rename_i jobs plans steps hj _ hs
    exact Or.inr ⟨jobs, plans, steps, hj, hs, rfl⟩
  · exact Or.inl rfl

variable {db₀ : Db} {tr : List (Trans app.controller)} {c : Conf Db HttpError Response Request}
  {t : Trans app.controller} {k : String}

/-- A request that creates jobs has changed the database: it has inserted the rows of an
    accepted request. -/
theorem App.Run.creation (h : app.Run db₀ tr c) (ht : t ∈ tr) {i : ℕ} (hby : t.By i r)
    (hc : r.call = .createJob body) (hne : t.post.db ≠ t.pre.db) :
    ∃ inputFile outputDir jobs plans steps, Plans app r body inputFile outputDir ∧
      t.pre.db.jobs.insert? (planRows app r body inputFile outputDir).1 = some jobs ∧
      t.pre.db.steps.insert? (planRows app r body inputFile outputDir).2.2 = some steps ∧
      t.post.db = { t.pre.db with jobs := jobs, plans := plans, steps := steps } := by
  rcases Service.Run.acts (handle_creation app) h ht hby with he | hcr
  · exact absurd he hne
  rcases hcr body hc with he | ⟨inputFile, outputDir, hp, he⟩
  · exact absurd he hne
  rcases insertJob_cases t.pre.db (planRows app r body inputFile outputDir).1
    (planRows app r body inputFile outputDir).2.1
    (planRows app r body inputFile outputDir).2.2 with hi | ⟨jobs, plans, steps, hj, hs, hi⟩
  · exact absurd (he.trans hi) hne
  · exact ⟨inputFile, outputDir, jobs, plans, steps, hp, hj, hs, he.trans hi⟩

theorem get?_inserted {ρ κ : Type} [DecidableEq κ] [HasKey ρ κ] {t t' : Table ρ} {x y : ρ} {k : κ}
    (h : t.insert? x = some t') (hn : t.get? k = none) (hy : t'.get? k = some y) : y = x := by
  have hget := Table.get?_insert (k := k) h
  rw [hn] at hget
  split_ifs at hget
  · exact Option.some.inj (hy.symm.trans hget)
  · cases hy.symm.trans hget

/-- **A job that a transition adds is one of an accepted request.** -/
theorem App.Run.created_job (h : app.Run db₀ tr c) (ht : t ∈ tr) {j : Job}
    (hn : t.pre.db.jobs.get? k = none) (hj : t.post.db.jobs.get? k = some j) :
    ∃ i r body inputFile outputDir, t.By i r ∧ Plans app r body inputFile outputDir ∧
      j = (planRows app r body inputFile outputDir).1 := by
  have hne : t.post.db ≠ t.pre.db := by
    intro he
    rw [he, hn] at hj
    cases hj
  cases h.jobStep ht k with
  | same he => rw [he, hn] at hj; cases hj
  | write _ _ _ hcur => rw [hn] at hcur; cases hcur
  | @create i r body _ _ hby hc =>
    obtain ⟨inputFile, outputDir, jobs, plans, steps, hp, hjobs, -, he⟩ := h.creation ht hby hc hne
    rw [he] at hj
    exact ⟨i, r, body, inputFile, outputDir, hby, hp, get?_inserted hjobs hn hj⟩

/-- **A step that a transition adds is one of an accepted request**, and so is its job. -/
theorem App.Run.created_step (h : app.Run db₀ tr c) (ht : t ∈ tr) {x : Step}
    (hn : t.pre.db.steps.get? k = none) (hx : t.post.db.steps.get? k = some x) :
    ∃ i r body inputFile outputDir, t.By i r ∧ Plans app r body inputFile outputDir ∧
      x = (planRows app r body inputFile outputDir).2.2 ∧
      t.pre.db.jobs.get? x.jobId = none ∧ (t.post.db.jobs.get? x.jobId).isSome := by
  have hne : t.post.db ≠ t.pre.db := by
    intro he
    rw [he, hn] at hx
    cases hx
  cases h.rowStep ht k with
  | same he => rw [rowAfter, rowBefore, hn] at he; rw [he] at hx; cases hx
  | write _ hx₀ => rw [rowBefore, hn] at hx₀; cases hx₀
  | recover _ hx₀ => rw [rowBefore, hn] at hx₀; cases hx₀
  | @create i r body _ _ hby hc =>
    obtain ⟨inputFile, outputDir, jobs, plans, steps, hp, hjobs, hsteps, he⟩ :=
      h.creation ht hby hc hne
    rw [he] at hx
    obtain rfl := get?_inserted hsteps hn hx
    refine ⟨i, r, body, inputFile, outputDir, hby, hp, rfl, (Table.insert?_eq_some hjobs).1, ?_⟩
    rw [he]
    show (jobs.get? (planRows app r body inputFile outputDir).1.id).isSome
    rw [Table.get?_insert hjobs]
    simp

/-! ## What never changes in a row -/

/-- What the runner reads of a row. -/
structure Step.Same (x x' : Step) : Prop where
  id : x'.id = x.id
  jobId : x'.jobId = x.jobId
  toolName : x'.toolName = x.toolName
  inputJson : x'.inputJson = x.inputJson

theorem Step.Same.refl (x : Step) : x.Same x := ⟨rfl, rfl, rfl, rfl⟩

theorem StepWrite.same {db : Db} {x x' : Step} (h : StepWrite db r x x') : x.Same x' := by
  cases h <;> exact ⟨rfl, rfl, rfl, rfl⟩

theorem Step.recovered_same (x : Step) : x.Same x.recovered := by
  unfold Step.recovered
  split_ifs <;> exact ⟨rfl, rfl, rfl, rfl⟩

/-- A row after a transition was there before, the same for the runner, or is new. -/
theorem RowStep.kept (h : RowStep t k) {x' : Step} (hx' : rowAfter t k = some x') :
    rowBefore t k = none ∨ ∃ x, rowBefore t k = some x ∧ x.Same x' := by
  cases h with
  | same he => exact Or.inr ⟨x', he.symm.trans hx', .refl x'⟩
  | write _ hx hy hw =>
    cases hx'.symm.trans hy
    exact Or.inr ⟨_, hx, hw.same⟩
  | recover _ hx _ hy =>
    cases hx'.symm.trans hy
    exact Or.inr ⟨_, hx, Step.recovered_same _⟩
  | create _ _ hn => exact Or.inl hn

/-- A row stays, the same for the runner. -/
theorem RowStep.stays (h : RowStep t k) {x : Step} (hx : rowBefore t k = some x) :
    ∃ x', rowAfter t k = some x' ∧ x.Same x' := by
  cases h with
  | same he => exact ⟨x, he.trans hx, .refl x⟩
  | write _ hx₀ hy hw =>
    cases hx.symm.trans hx₀
    exact ⟨_, hy, hw.same⟩
  | recover _ hx₀ _ hy =>
    cases hx.symm.trans hx₀
    exact ⟨_, hy, Step.recovered_same _⟩
  | create _ _ hn => cases hx.symm.trans hn

theorem JobWrite.inputFile_eq {db : Db} {old new : Job} (h : JobWrite db r old new) :
    new.inputFile = old.inputFile := by
  cases h <;> rfl

/-- A job after a transition was there before, with its input file, or is new. -/
theorem JobStep.kept (h : JobStep t k) {j' : Job} (hj' : t.post.db.jobs.get? k = some j') :
    t.pre.db.jobs.get? k = none ∨
      ∃ j, t.pre.db.jobs.get? k = some j ∧ j'.inputFile = j.inputFile := by
  cases h with
  | same he => exact Or.inr ⟨j', he.symm.trans hj', rfl⟩
  | @write i r old new cur _ hw _ hj hflush =>
    cases hj'.symm.trans hflush
    exact Or.inr ⟨cur, hj, if_pos hw.inputFile_eq⟩
  | create _ _ hn => exact Or.inl hn

/-! ## The plan of a job -/

/-- The shared root is canonical for the requests: it and its output directory resolve to
    themselves. -/
structure CanonicalRoot (root : ResolvedPath) (fs : FileSystem) : Prop where
  self : fs.resolve root.str = root
  output : fs.resolve (root ++ ["output"] : ResolvedPath).str = root ++ ["output"]

/-- The directories of the step are those of its job, below the root. -/
structure Step.Planned (root : ResolvedPath) (x : Step) : Prop where
  clean : Clean x.jobId
  output : Dict.get? x.inputJson "output_dir" =
    some (.str (root ++ ["output", x.jobId] : ResolvedPath).str)
  work : Dict.get? x.inputJson "work_dir" =
    some (.str (root ++ ["work", x.jobId] : ResolvedPath).str)

theorem Plans.planned (hp : Plans app r body inputFile outputDir)
    (hfs : CanonicalRoot app.sharedRoot r.ambient.fs) :
    (planRows app r body inputFile outputDir).2.2.Planned app.sharedRoot ∧
      inputFile = r.ambient.fs.resolve body.inputFile ∧ app.sharedRoot <+: inputFile := by
  obtain ⟨hsafe, hout⟩ := buildJobOutputDir_ok.1 hp.output
  obtain ⟨hin, root, hroot, hpre⟩ := resolveAllowlistedPath_ok.1 hp.input
  obtain rfl := List.mem_singleton.1 hroot
  rw [hfs.self] at hpre
  rw [hfs.output] at hout
  refine ⟨⟨hsafe.toClean, ?_, rfl⟩, hin, hin ▸ hpre⟩
  show some (Json.str outputDir.str) = _
  rw [hout, List.append_assoc]
  rfl

end MediaOrchard
