/-
  Who is served.

  * `app.Accepts key`: the key is that of the application; `app.Denies key e`: `e` is the
    answer to any other;
  * `requireWorkerAuth_accepts`: the dependency lets in, answers 401, or raises for a hash
    that is not ASCII;
  * `Open p`: `p` does not end in 401; `handle_open`: no endpoint does, behind the dependency;
  * `App.Run.guarded`: over whole runs, a request with another key is denied, and does nothing;
  * `ends_workerStart`: the requests of a Worker present the key it was given;
  * `access_controlled`: the Controller that `controller start` starts.
-/
import MediaOrchard.Cli.Main
import MediaOrchard.Proof.Rows
import MediaOrchard.Proof.Priorities
import MediaOrchard.Proof.Allowlist

namespace MediaOrchard

open Keyed Interleave Prog Effects

/-! ## Keys -/

/-- The key has the stored hash. -/
def App.Accepts (app : App) (key : String) : Prop :=
  key ≠ "" ∧ app.apiKeyHash = "sha256:" ++ app.sha256Hex key

instance (app : App) (key : String) : Decidable (app.Accepts key) :=
  inferInstanceAs (Decidable (_ ∧ _))

/-- The hash of a key is ASCII. -/
theorem App.Accepts.isAscii {app : App} {key : String} (h : app.Accepts key) :
    isAscii app.apiKeyHash := by
  rw [h.2, isAscii_append, app.sha256Hex.isAscii_hexdigest]
  decide

/-- **The dependency** lets a request in, answers 401, or raises as the stored hash is not
    ASCII. -/
theorem requireWorkerAuth_accepts (app : App) (h : Headers) :
    (app.Accepts h.key ∧ requireWorkerAuth app h = .ret ()) ∨
      (¬ app.Accepts h.key ∧ (h.key = "" ∨ isAscii app.apiKeyHash) ∧
        requireWorkerAuth app h = .throw ⟨401, "invalid worker api key"⟩) ∨
      (¬ app.Accepts h.key ∧ h.key ≠ "" ∧ isAscii app.apiKeyHash = false ∧
        requireWorkerAuth app h = .throw internalError) := by
  by_cases hascii : isAscii app.apiKeyHash
  · have hverify := verifyApiKey_ascii hascii app.sha256Hex h.key
    rcases requireWorkerAuth_eq app h with ⟨hv, hr⟩ | ⟨hv, hr⟩ | ⟨e, hv, -⟩
    · exact Or.inl ⟨of_decide_eq_true (Except.ok.inj (hverify.symm.trans hv)), hr⟩
    · exact Or.inr (Or.inl
        ⟨of_decide_eq_false (Except.ok.inj (hverify.symm.trans hv)), Or.inr hascii, hr⟩)
    · cases hverify.symm.trans hv
  · have hkey : ¬ app.Accepts h.key := fun hkey => hascii hkey.isAscii
    rw [Bool.not_eq_true] at hascii
    right
    by_cases hempty : h.key = ""
    · have hverify := verifyApiKey_empty app.sha256Hex app.apiKeyHash
      rw [← hempty] at hverify
      rcases requireWorkerAuth_eq app h with ⟨hv, -⟩ | ⟨-, hr⟩ | ⟨e, hv, -⟩
      · cases hverify.symm.trans hv
      · exact Or.inl ⟨hkey, Or.inl hempty, hr⟩
      · cases hverify.symm.trans hv
    · have hverify := verifyApiKey_raises hascii app.sha256Hex hempty
      rcases requireWorkerAuth_eq app h with ⟨hv, -⟩ | ⟨hv, -⟩ | ⟨e, -, hr⟩
      · cases hverify.symm.trans hv
      · cases hverify.symm.trans hv
      · exact Or.inr ⟨hkey, hempty, hascii, hr⟩

/-! ## Endpoints -/

/-- The outcome is not 401. -/
def Undenied {α : Type} (o : Except HttpError α) : Prop := ∀ e, o = .error e → e.status ≠ 401

/-- The function does not end in 401. -/
abbrev Open {α : Type} (p : Handler α) : Prop := EndsIn (fun _ => True) Undenied p

variable {α β : Type}

theorem Open.ret (a : α) : Open (.ret a) := by
  intro e he
  cases he

theorem Open.throw {e : HttpError} (h : e.status ≠ 401) : Open (.throw e : Handler α) := by
  intro e' he
  cases he
  exact h

theorem Open.bind {p : Handler α} {g : α → Handler β} (hp : Open p) (hg : ∀ a, Open (g a)) :
    Open (p.bind g) :=
  EndsIn.bind hp (fun e he => Open.throw (he e rfl)) fun a _ => hg a

theorem Open.read (g : Db → β) : Open (Prog.read g) := fun _ _ => Or.inr (Open.ret _)

theorem Open.atomic (f : Db → β × Db) : Open (Prog.atomic f) := fun _ _ => Or.inr (Open.ret _)

/-- A row that is read. -/
theorem Open.row (g : Db → Option α) {k : Option α → Handler β} (hnone : Open (k none))
    (hsome : ∀ a, Open (k (some a))) : Open ((Prog.read g).bind k) := by
  refine .bind (.read g) fun row => ?_
  cases row with
  | none => exact hnone
  | some a => exact hsome a

theorem requireValid_open (fields : List String) : Open (requireValid fields) := by
  unfold requireValid
  split_ifs
  exacts [.ret (), .throw (show 422 ≠ 401 by decide)]

theorem requireWorkerNodeId_open (h : Headers) : Open (requireWorkerNodeId h) := by
  unfold requireWorkerNodeId
  split
  · exact .throw (by decide)
  · split_ifs
    exacts [.throw (by decide), .ret _]

theorem getNode_open (nodeId : String) : Open (getNode nodeId) :=
  .row _ (.throw (by decide)) fun _ => .ret _

theorem refreshNode_open (nodeId : String) : Open (refreshNode nodeId) :=
  .row _ (.throw (by decide)) fun _ => .ret _

theorem registerNode_open (app : App) (env : Ambient) (body : NodeRegisterRequest) :
    Open (registerNode app env body) := by
  unfold registerNode
  dsimp only
  split_ifs
  · exact .throw (show 422 ≠ 401 by decide)
  refine .row _ (.bind (.atomic _) fun inserted => ?_) fun node =>
    .bind (.atomic _) fun _ => refreshNode_open _
  split_ifs
  exacts [.throw (by decide), refreshNode_open _]

theorem heartbeatNode_open (app : App) (env : Ambient) (nodeId : String)
    (body : NodeHeartbeatRequest) : Open (heartbeatNode app env nodeId body) := by
  refine .bind (requireValid_open _) fun _ => .bind (getNode_open _) fun node => ?_
  refine .bind (.atomic _) fun done => ?_
  cases done with
  | error => exact .throw (by decide)
  | ok => exact refreshNode_open _

theorem createJob_open (app : App) (env : Ambient) (body : JobCreateRequest) :
    Open (createJob app env body) := by
  unfold createJob
  split_ifs
  · exact .throw (show 422 ≠ 401 by decide)
  split
  · exact .throw (show 422 ≠ 401 by decide)
  dsimp only
  split
  · exact .throw (by decide)
  refine .bind (.atomic _) fun inserted => ?_
  split_ifs
  · exact .throw (by decide)
  · exact .row _ (.throw (by decide)) fun _ => .ret _

theorem getJob_open (jobId : String) : Open (getJob jobId) := .row _ (.throw (by decide)) fun _ => .ret _

theorem markJobRunning_open (clock : ℕ → Instant) (jobId : String) :
    Open (markJobRunning clock jobId) := by
  refine .row _ (.ret ()) fun job => ?_
  dsimp only
  split_ifs
  exacts [.atomic _, .ret ()]

theorem markJobAfterStepCompletion_open (clock : ℕ → Instant) (jobId : String) :
    Open (markJobAfterStepCompletion clock jobId) :=
  .row _ (.ret ()) fun _ => .bind (.read _) fun _ => .atomic _

theorem markJobFailed_open (clock : ℕ → Instant) (jobId errorMessage : String) :
    Open (markJobFailed clock jobId errorMessage) :=
  .row _ (.ret ()) fun _ => .atomic _

theorem loadOwnedStep_open (stepId workerNodeId : String) (assignmentEpoch : ℤ) :
    Open (loadOwnedStep stepId workerNodeId assignmentEpoch) := by
  refine .bind (.row _ (.throw (by decide)) fun _ => .ret _) fun step =>
    .bind ?_ fun _ => .bind ?_ fun _ => .ret _
  · unfold validateWorkerOwnership
    split_ifs
    exacts [.throw (by decide), .ret ()]
  · unfold validateEpochOr409
    split
    exacts [.throw (show 409 ≠ 401 by decide), .ret ()]

theorem transitionOr409_open (step : Step) (target : StepStatus) :
    Open (transitionOr409 step target) := by
  unfold transitionOr409
  split
  exacts [.throw (show 409 ≠ 401 by decide), .ret _]

theorem persistStepUpdateOr409_open (step : Step) (workerNodeId : String)
    (fromStatuses : List StepStatus) (values : List StepValue) (requireUnclaimed : Bool) :
    Open (persistStepUpdateOr409 step workerNodeId fromStatuses values requireUnclaimed) := by
  refine .bind (.atomic _) fun rowcount => ?_
  split_ifs
  exacts [.throw (by decide), .row _ (.throw (by decide)) fun _ => .ret _]

theorem claimNext_open (env : Ambient) (workerNodeId : String) (body : StepClaimNextRequest) :
    Open (claimNext env workerNodeId body) := by
  unfold claimNext
  split_ifs
  · exact .throw (by decide)
  refine .row _ (.ret none) fun step => .bind (.atomic _) fun rowcount => ?_
  split_ifs
  exacts [.ret none, .read _]

theorem startStep_open (env : Ambient) (n stepId : String) (body : StepEpochRequest) :
    Open (startStep env n stepId body) :=
  .bind (loadOwnedStep_open _ _ _) fun _ => .bind (transitionOr409_open _ _) fun _ =>
    .bind (persistStepUpdateOr409_open _ _ _ _ _) fun _ =>
      .bind (markJobRunning_open _ _) fun _ => .ret _

theorem progressStep_open (n stepId : String) (body : StepProgressRequest) :
    Open (progressStep n stepId body) :=
  .bind (requireValid_open _) fun _ => .bind (loadOwnedStep_open _ _ _) fun _ =>
    persistStepUpdateOr409_open _ _ _ _ _

theorem completeStep_open (env : Ambient) (n stepId : String) (body : StepCompleteRequest) :
    Open (completeStep env n stepId body) :=
  .bind (loadOwnedStep_open _ _ _) fun _ => .bind (transitionOr409_open _ _) fun _ =>
    .bind (persistStepUpdateOr409_open _ _ _ _ _) fun _ =>
      .bind (markJobAfterStepCompletion_open _ _) fun _ => .ret _

theorem failStep_open (env : Ambient) (n stepId : String) (body : StepFailRequest) :
    Open (failStep env n stepId body) :=
  .bind (loadOwnedStep_open _ _ _) fun _ => .bind (transitionOr409_open _ _) fun _ =>
    .bind (persistStepUpdateOr409_open _ _ _ _ _) fun _ =>
      .bind (markJobFailed_open _ _ _) fun _ => .ret _

theorem claimStep_open (env : Ambient) (n stepId : String) (body : StepEpochRequest) :
    Open (claimStep env n stepId body) := by
  refine .bind (loadOwnedStep_open _ _ _) fun step => ?_
  split_ifs
  exacts [.throw (by decide), persistStepUpdateOr409_open _ _ _ _ _]

/-- An endpoint of a worker. -/
theorem Open.worker {h : Headers} {p : String → Handler α} (hp : ∀ n, Open (p n))
    (f : α → Response) :
    Open ((requireWorkerNodeId h).bind fun n => (p n).bind fun x => .ret (f x)) :=
  .bind (requireWorkerNodeId_open h) fun n => .bind (hp n) fun _ => .ret _

/-- How a request ends that is not let in. -/
def App.Denies (app : App) (key : String) (e : HttpError) : Prop :=
  e = ⟨401, "invalid worker api key"⟩ ∧ (key = "" ∨ isAscii app.apiKeyHash) ∨
    e = internalError ∧ key ≠ "" ∧ isAscii app.apiKeyHash = false

/-- **Behind the dependency no endpoint ends in 401.** -/
theorem handle_open (app : App) (r : Request) :
    (app.Accepts r.headers.key → Open (app.handle r)) ∧
      (¬ app.Accepts r.headers.key →
        ∃ e, app.handle r = .throw e ∧ app.Denies r.headers.key e) := by
  unfold App.handle
  rcases requireWorkerAuth_accepts app r.headers with
    ⟨hkey, hauth⟩ | ⟨hkey, hdenied, hauth⟩ | ⟨hkey, hempty, hascii, hauth⟩ <;> rw [hauth]
  · refine ⟨fun _ => ?_, fun hnot => absurd hkey hnot⟩
    dsimp only [Prog.bind_eq, Prog.ret_bind]
    cases r.call with
    | listNodes limit offset => exact .bind (.read _) fun _ => .ret _
    | getNode nodeId => exact .bind (getNode_open _) fun _ => .ret _
    | registerNode body => exact .bind (registerNode_open _ _ _) fun _ => .ret _
    | heartbeatNode nodeId body => exact .bind (heartbeatNode_open _ _ _ _) fun _ => .ret _
    | createJob body => exact .bind (createJob_open _ _ _) fun _ => .ret _
    | listJobs limit offset => exact .bind (.read _) fun _ => .ret _
    | getJob jobId => exact .bind (getJob_open _) fun _ => .ret _
    | claimNext body =>
      refine .bind (requireWorkerNodeId_open _) fun n => .bind (claimNext_open _ _ _) fun claimed => ?_
      cases claimed <;> exact .ret _
    | startStep stepId body => exact .worker (fun n => startStep_open _ n _ _) _
    | progressStep stepId body => exact .worker (fun n => progressStep_open n _ _) _
    | completeStep stepId body => exact .worker (fun n => completeStep_open _ n _ _) _
    | failStep stepId body => exact .worker (fun n => failStep_open _ n _ _) _
    | claimStep stepId body => exact .worker (fun n => claimStep_open _ n _ _) _
  · exact ⟨fun h => absurd h hkey, fun _ => ⟨_, rfl, Or.inl ⟨rfl, hdenied⟩⟩⟩
  · exact ⟨fun h => absurd h hkey, fun _ => ⟨_, rfl, Or.inr ⟨rfl, hempty, hascii⟩⟩⟩

/-! ## Runs -/

section
variable {app : App} {db₀ : Db} {tr : List (Trans app.controller)}
  {c : Conf Db HttpError Response Request}

/-- **Who is served**: in every run a request whose key is not that of the application is
    answered with 401, or with 500 if its key is not empty and the stored hash is not ASCII, and
    does nothing; no other is answered with 401. -/
theorem App.Run.guarded (h : app.Run db₀ tr c) :
    (∀ (i : ℕ) r o, c.procs[i]? = some (r, Service.done o) →
      if app.Accepts r.headers.key then ∀ e, o = .error e → e.status ≠ 401
      else ∃ e, o = .error e ∧ app.Denies r.headers.key e) ∧
    ∀ t ∈ tr, ∀ i r, t.By i r → ¬ app.Accepts r.headers.key → t.post = t.pre := by
  have hgate : ∀ {tr : List (Trans app.controller)} {c : Conf Db HttpError Response Request},
      app.Run db₀ tr c → ∀ (i : ℕ) r p, c.procs[i]? = some (r, p) →
        (app.Accepts r.headers.key → Open p) ∧
          (¬ app.Accepts r.headers.key → ∃ e, p = .throw e ∧ app.Denies r.headers.key e) := by
    intro tr c h
    refine h.handlers (handle_open app) fun r f k s hp => ⟨fun hkey => ?_, fun hkey => ?_⟩
    · exact (hp.1 hkey).done trivial
    · obtain ⟨e, hthrow, -⟩ := hp.2 hkey
      cases hthrow
  refine ⟨fun i r o hi => ?_, fun t ht i r hby hkey => ?_⟩
  · obtain ⟨hopen, hdenied⟩ := hgate h i r _ hi
    split_ifs with hkey
    · intro e ho he
      subst ho
      exact hopen hkey e rfl he
    · obtain ⟨e, hthrow, hdenies⟩ := hdenied hkey
      cases o with
      | ok => cases hthrow
      | error e' =>
        cases hthrow
        exact ⟨_, rfl, hdenies⟩
  · obtain ⟨tr₁, hrun, -⟩ := h.of_mem ht
    obtain ⟨⟨r', p⟩, hp, rfl⟩ := Option.map_eq_some_iff.1 hby.2
    obtain ⟨e, rfl, -⟩ := (hgate hrun i r' p hp).2 hkey
    show app.controller.step t.pre t.act = t.pre
    rw [hby.1]
    simp only [Service.step, hp]

end

/-! ## Clients -/

/-- The key behind `Bearer ` is the key that is presented. -/
theorem Headers.key_bearer (h : Headers) {key : String}
    (hkey : h.authorization = some ("Bearer " ++ key)) : h.key = key := by
  rw [Headers.key, hkey, Option.bind_some, bearerToken?_bearer]
  rfl

/-- Nobody is served without a hash. -/
theorem unset_accepts {app : App} (h : app.apiKeyHash = "__unset__") (key : String) :
    ¬ app.Accepts key := by
  rintro ⟨-, hkey⟩
  have hlist := congrArg String.toList (h.symm.trans hkey)
  rw [String.toList_append] at hlist
  cases hlist

/-! ## Workers -/

/-- The requests of the loop carry these headers. -/
def LoopOp.Carries (headers : Headers) : LoopOp → Prop
  | .post request => request.headers = headers
  | _ => True

section
variable {headers : Headers} {φ : LoopOp → Prop}

theorem loop_uses_bind {p : WorkerProg α} {g : α → WorkerProg β}
    (hp : Eff.Uses φ (WorkerProg.loop p)) (hg : ∀ a, Eff.Uses φ (WorkerProg.loop (g a))) :
    Eff.Uses φ (WorkerProg.loop (p.bind g)) := by
  induction p with
  | ret a => exact hg a
  | raise => trivial
  | call b k ih | run i k ih => exact ⟨hp.1, fun r => ih _ (hp.2 r)⟩

theorem loop_uses_tryCatch {p : WorkerProg α} {g : String → WorkerProg α}
    (hp : Eff.Uses φ (WorkerProg.loop p)) (hg : ∀ e, Eff.Uses φ (WorkerProg.loop (g e))) :
    Eff.Uses φ (WorkerProg.loop (p.tryCatch g)) := by
  induction p with
  | ret a => trivial
  | raise e => exact hg e
  | call b k ih | run i k ih => exact ⟨hp.1, fun r => ih _ (hp.2 r)⟩

theorem loop_uses_liftExcept (x : Except String α) :
    Eff.Uses φ (WorkerProg.loop (Client.liftExcept x)) := by
  cases x <;> trivial

/-- A request of a worker, whose answer is not looked at. -/
theorem post_carries (worker : WorkerAgent) (call : Call) : Eff.Uses (LoopOp.Carries worker.headers)
    (WorkerProg.loop (worker.post call >>= fun _ => pure () : WorkerProg Unit)) :=
  loop_uses_bind ⟨rfl, fun _ => loop_uses_liftExcept _⟩ fun _ => trivial

theorem executeClaimedStep_carries (worker : WorkerAgent) (step : Dict) :
    Eff.Uses (LoopOp.Carries worker.headers) (WorkerProg.loop (executeClaimedStep worker step)) := by
  refine loop_uses_bind (loop_uses_liftExcept _) fun stepId => ?_
  refine loop_uses_bind (loop_uses_liftExcept _) fun epoch => ?_
  refine loop_uses_tryCatch ?_ fun exc => post_carries worker _
  refine loop_uses_bind ⟨rfl, fun _ => loop_uses_liftExcept _⟩ fun _ => ?_
  refine loop_uses_bind ⟨trivial, fun _ => loop_uses_liftExcept _⟩ fun outputJson => ?_
  split_ifs
  exacts [post_carries worker _, post_carries worker _]

variable (h : Host) (str : Json → String) (config : WorkerLoopConfig)

/-- **Every request of a Worker carries its headers.** -/
theorem runWorker_carries (fuel : ℕ) :
    Eff.Uses (LoopOp.Carries (config.worker str).headers) (runWorker h str config fuel) := by
  have hpost : ∀ call, Eff.Uses (LoopOp.Carries (config.worker str).headers)
      (config.post str call) := fun call => ⟨rfl, fun _ => Eff.Uses.liftExcept _⟩
  have hloop : ∀ fuel polls claimedSteps, Eff.Uses (LoopOp.Carries (config.worker str).headers)
      (pollLoop str config fuel polls claimedSteps) := by
    intro fuel
    induction fuel with
    | zero => exact fun _ _ => trivial
    | succ fuel ih =>
      intro polls claimedSteps
      refine Eff.Uses.bind ⟨trivial, fun _ => Eff.Uses.liftExcept _⟩ fun metrics => ?_
      refine Eff.Uses.bind (hpost _) fun _ => Eff.Uses.bind (hpost _) fun claimed => ?_
      refine Eff.Uses.bind ?_ fun _ => ?_
      · unfold executeClaimed
        cases claimed with
        | none => trivial
        | some step =>
          dsimp only
          split_ifs
          exacts [executeClaimedStep_carries _ _, trivial]
      · split_ifs
        · trivial
        · exact Eff.Uses.bind ⟨trivial, fun _ => Eff.Uses.liftExcept _⟩ fun _ => ih _ _
  exact Eff.Uses.bind (hpost _) fun _ => hloop _ _ _

/-- The requests among the operations of the command line. -/
def CliOp.Carries (headers : Headers) : CliOp → Prop
  | .work op => op.Carries headers
  | _ => True

theorem workerStart_carries (env : Environ) (fuel : ℕ) (o : Cli.WorkerOptions) {key : String}
    (hkey : Cli.requireApiKey env o.apiKey = .ok key) :
    Eff.Uses (CliOp.Carries ((o.config key).worker str).headers)
      (Cli.workerStart h str env fuel o) := by
  have hecho : ∀ text, Eff.Uses (CliOp.Carries ((o.config key).worker str).headers)
      (Cli.echo text) := fun text => ⟨trivial, fun _ => trivial⟩
  unfold Cli.workerStart
  rw [hkey]
  show Eff.Uses _ (if o.executionMode ∉ ["deterministic", "real"] then _ else _)
  by_cases hmode : o.executionMode ∉ ["deterministic", "real"]
  · rw [if_pos hmode]
    trivial
  · rw [if_neg hmode]
    refine Eff.Uses.bind (hecho _) fun _ => ?_
    refine Eff.Uses.bind (Eff.Uses.rename (runWorker_carries h str (o.config key) fuel))
      fun claimed => ?_
    cases claimed with
    | none => trivial
    | some claimed =>
      dsimp only
      split_ifs
      exacts [Eff.Uses.bind (hecho _) fun _ => trivial, trivial]

/-- **`worker start` needs a key**, and its requests present this key. -/
theorem ends_workerStart {σ : Type} {sem : Sem CliOp CliOp.Answer σ} {s t : σ} {env : Environ}
    {fuel : ℕ} {o : Cli.WorkerOptions} {cs : List (Effects.Call CliOp CliOp.Answer σ)}
    {out : Except CliExn (Option Unit)}
    (hends : Ends sem (Cli.workerStart h str env fuel o) s cs out t) :
    (∀ e, Cli.requireApiKey env o.apiKey = .error e → cs = [] ∧ out = .error e) ∧
    ∀ c ∈ cs, ∀ request, c.op = .work (.post request) →
      Cli.requireApiKey env o.apiKey = .ok request.headers.key ∧ request.headers.key ≠ "" ∧
        request.headers.xMediaorchardNodeId = some o.nodeId := by
  cases hkey : Cli.requireApiKey env o.apiKey with
  | error e =>
    unfold Cli.workerStart at hends
    rw [hkey] at hends
    obtain ⟨rfl, rfl, -⟩ := hends
    refine ⟨fun e' he => ⟨rfl, ?_⟩, by simp⟩
    rw [Except.error.inj he]
  | ok key =>
    refine ⟨fun e he => absurd he (by simp), fun c hc request hop => ?_⟩
    have hcarries := hends.uses (workerStart_carries h str env fuel o hkey) c hc
    rw [hop] at hcarries
    have hheaders : request.headers = ((o.config key).worker str).headers := hcarries
    have hpresents : request.headers.key = key := by
      rw [hheaders]
      exact Headers.key_bearer _ rfl
    have hne : key ≠ "" := by
      unfold Cli.requireApiKey at hkey
      dsimp only at hkey
      split_ifs at hkey with hempty
      cases hkey
      exact hempty
    rw [hpresents]
    exact ⟨rfl, hne, by rw [hheaders]; rfl⟩

end

/-! ## Start-up -/

section
variable {h : Host} {int : String → Option ℤ} {env env' : Environ} {o : Cli.ControllerOptions}

theorem requireApiKeyHash_ok {keyHash : String}
    (hok : Cli.requireApiKeyHash env o.apiKeyHash = .ok keyHash) :
    keyHash ≠ "" ∧ keyHash ≠ "__unset__" := by
  unfold Cli.requireApiKeyHash at hok
  dsimp only at hok
  split_ifs at hok with hnone
  cases hok
  exact not_or.1 hnone

/-- Priorities that were parsed are parsed again, if `int()` reads back what `str()` writes. -/
theorem parse_formatted (hint : ∀ value n, int value = some n → int (toString n) = some n)
    {p : List (String × ℤ)} (hp : Cli.parseNodePriorities int env o.nodePriority = .ok p) :
    parseNodePriorities int (some (formatNodePriorities p)) = .ok p := by
  have hcli : cliNodePriorities int env o.nodePriority = .ok p := by
    unfold Cli.parseNodePriorities at hp
    generalize cliNodePriorities int env o.nodePriority = parsed at hp ⊢
    cases parsed with
    | error => cases hp
    | ok => exact congrArg Except.ok (Except.ok.inj hp)
  obtain ⟨raw, hraw, -⟩ := cliNodePriorities_ok hcli
  exact parseNodePriorities_parsed hint hraw

variable {σ : Type} {sem : Sem CliOp CliOp.Answer σ} {s t : σ}
  {cs : List (Effects.Call CliOp CliOp.Answer σ)} {out : Except CliExn Unit}

/-- A server is started only with what `run_controller` has prepared. -/
theorem ends_controllerStart (hends : Ends sem (Cli.controllerStart h int env o) s cs out t)
    {c : Effects.Call CliOp CliOp.Answer σ} (hc : c ∈ cs) {call : UvicornRun}
    (hop : c.op = .serve env' call) :
    ∃ keyHash p, Cli.requireApiKeyHash env o.apiKeyHash = .ok keyHash ∧
      Cli.parseNodePriorities int env o.nodePriority = .ok p ∧
      runController h ⟨o.host, o.port, o.databaseUrl, keyHash, o.sharedRoot, p, o.logLevel, none⟩
        env = .ok (env', call) := by
  unfold Cli.controllerStart at hends
  cases hhash : Cli.requireApiKeyHash env o.apiKeyHash with
  | error e =>
    rw [hhash] at hends
    obtain ⟨rfl, -, -⟩ := hends
    cases hc
  | ok keyHash =>
    rw [hhash] at hends
    cases hp : Cli.parseNodePriorities int env o.nodePriority with
    | error e =>
      rw [hp] at hends
      obtain ⟨rfl, -, -⟩ := hends
      cases hc
    | ok p =>
      rw [hp] at hends
      obtain ⟨_, u, cs, rfl, -, hends⟩ := hends
      rcases List.mem_cons.1 hc with rfl | hserve
      · cases hop
      · generalize hr : runController h _ env = prepared at hends
        cases prepared with
        | error exc =>
          obtain ⟨rfl, -, -⟩ := hends
          exact absurd hserve List.not_mem_nil
        | ok prepared =>
          obtain ⟨answer, v, cs, rfl, -, hends⟩ := hends
          obtain rfl : cs = [] := by cases answer <;> exact hends.1
          obtain rfl := List.mem_singleton.1 hserve
          obtain ⟨rfl, rfl⟩ := CliOp.serve.inj hop
          exact ⟨keyHash, p, rfl, rfl, hr⟩

/-- What a request that is not let in is answered. -/
theorem App.Denies.iff {app : App} {key : String} {e : HttpError} (h : app.Denies key e)
    (hnot : ¬ app.Accepts key) : (e.status = 401 ↔ key = "" ∨
      isAscii app.apiKeyHash ∧ app.apiKeyHash ≠ "sha256:" ++ app.sha256Hex key) := by
  rcases h with ⟨rfl, hdenied⟩ | ⟨rfl, hkey, hascii⟩
  · exact iff_of_true rfl (or_iff_not_imp_left.2 fun hkey =>
      ⟨hdenied.resolve_left hkey, fun hhash => hnot ⟨hkey, hhash⟩⟩)
  · exact iff_of_false (by decide) (by simp [hkey, hascii])

end

/-- The start of a Controller with this hash and a priority. -/
def sampleStart (keyHash : String) : Cli.ControllerOptions where
  apiKeyHash := some keyHash
  nodePriority := some ["10.0.0.1=30"]

/-- The configuration it hands to `run_controller`. -/
def sampleServing (keyHash : String) : ControllerRuntimeConfig where
  host := (sampleStart keyHash).host
  port := (sampleStart keyHash).port
  databaseUrl := (sampleStart keyHash).databaseUrl
  apiKeyHash := keyHash
  sharedRoot := (sampleStart keyHash).sharedRoot
  nodePriorities := [("10.0.0.1", 30)]
  logLevel := (sampleStart keyHash).logLevel

/-- It starts a server. -/
theorem exists_ends_sampleStart {keyHash : String}
    (hhash : Cli.requireApiKeyHash (fun _ => none) (some keyHash) = .ok keyHash)
    (hnul : (sampleServing keyHash).NoNul plainHost) : ∃ cs environ call,
      Ends (fun _ _ _ _ => True)
        (Cli.controllerStart plainHost intOfDigits (fun _ => none) (sampleStart keyHash))
        () cs (.ok ()) () ∧
      (⟨.serve environ call, .ok (), (), ()⟩ : Effects.Call CliOp CliOp.Answer Unit) ∈ cs := by
  obtain ⟨environ, call, hr⟩ : ∃ environ call, runController plainHost (sampleServing keyHash)
      (fun _ => none) = .ok (environ, call) := ⟨_, _, runController_eq_ok.2 ⟨hnul, rfl, rfl⟩⟩
  have hp : Cli.parseNodePriorities intOfDigits (fun _ => none) (some ["10.0.0.1=30"]) =
      .ok [("10.0.0.1", 30)] := by
    decide +kernel
  unfold Cli.controllerStart
  rw [show (sampleStart keyHash).apiKeyHash = some keyHash from rfl, hhash,
    show (sampleStart keyHash).nodePriority = some ["10.0.0.1=30"] from rfl, hp]
  refine ⟨[⟨.echo _ _, (), (), ()⟩, ⟨.serve environ call, .ok (), (), ()⟩], environ, call,
    ⟨(), (), _, rfl, trivial, ?_⟩, List.mem_cons_of_mem _ (List.mem_singleton_self _)⟩
  change Ends _ ((Eff.liftExcept
    ((runController plainHost (sampleServing keyHash) _).mapError CliExn.uncaught)).bind _) ..
  rw [hr]
  exact ⟨.ok (), (), _, rfl, trivial, rfl, rfl, rfl⟩

end MediaOrchard
