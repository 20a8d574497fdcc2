/-
  Workers and Controller together.

  * `executeClaimedStep_follows`: a Worker runs a step only after its `start` was
    accepted, once, and completes it only with what that run returned;
  * `App.Run.start_unique`: under one epoch a step is started at most once;
  * `at_most_once`: the step runner is invoked at most once for every step and
    epoch, and a completed step holds what it returned, for ever.
-/
import MediaOrchard.Proof.Steps
import MediaOrchard.Worker.Runtime
import Mathlib.Data.List.Pairwise

namespace MediaOrchard

open Keyed Interleave Prog

variable {app : App} {t : Trans app.controller} {k : String} {e : ℤ} {db₀ : Db}
  {tr : List (Trans app.controller)} {c : Conf Db HttpError Response Request}

/-! ## The discipline of a Worker -/

/-- A log that allows a call: a `complete` carries what the runner returned for
    the step and the epoch it names. -/
def MayCall (log : List (Event HttpRequest (Option Response) Dict Dict String))
    (b : HttpRequest) : Prop :=
  ∀ k body, b.call = .completeStep k body → ∃ step, claimOf step = some (k, body.assignmentEpoch) ∧
    .returned step (.ok body.outputJson) ∈ log ∧ reportsFailure body.outputJson = false

/-- The `start` of a claimed step was accepted. -/
def Accepted (log : List (Event HttpRequest (Option Response) Dict Dict String))
    (step : Dict) : Prop :=
  ∃ k e m h v, claimOf step = some (k, e) ∧ .answered m ⟨.startStep k ⟨e⟩, h⟩ (.ok v) ∈ log

/-- A log that allows a run: the step was accepted, and nothing was run yet. -/
def MayRun (log : List (Event HttpRequest (Option Response) Dict Dict String))
    (step : Dict) : Prop :=
  Accepted log step ∧ ∀ j, .invoked j ∉ log

theorem MayCall.cons {log : List (Event HttpRequest (Option Response) Dict Dict String)}
    {b : HttpRequest} (h : MayCall log b) (ev) : MayCall (ev :: log) b := fun k body hb => by
  obtain ⟨step, hs, hr, hf⟩ := h k body hb
  exact ⟨step, hs, List.mem_cons_of_mem _ hr, hf⟩

theorem Accepted.cons {log : List (Event HttpRequest (Option Response) Dict Dict String)}
    {step : Dict} (h : Accepted log step) (ev) : Accepted (ev :: log) step := by
  obtain ⟨k, e, m, hd, v, hs, ha⟩ := h
  exact ⟨k, e, m, hd, v, hs, List.mem_cons_of_mem _ ha⟩

/-- Reporting a failure is always allowed. -/
theorem failStep_follows (worker : WorkerAgent) (k : String) (e : ℤ) (msg : String)
    (log : List (Event HttpRequest (Option Response) Dict Dict String)) :
    Client.Follows MayCall MayRun log
      (worker.failStep k e msg >>= fun _ => pure () : WorkerProg Unit) :=
  ⟨nofun, fun m a => by cases a <;> trivial⟩

theorem failStep_tryCatch_follows (worker : WorkerAgent) (k : String) (e : ℤ) (msg : String)
    (log : List (Event HttpRequest (Option Response) Dict Dict String)) :
    Client.Follows MayCall MayRun log
      (Client.tryCatch (worker.failStep k e msg >>= fun _ => pure () : WorkerProg Unit)
        fun exc => worker.failStep k e exc >>= fun _ => pure ()) :=
  ⟨nofun, fun m a => by
    cases a with
    | ok => trivial
    | error exc => exact failStep_follows worker k e exc _⟩

/-- **A Worker process follows the discipline.** -/
theorem executeClaimedStep_follows (worker : WorkerAgent) (step : Dict) :
    Client.Follows MayCall MayRun [] (executeClaimedStep worker step) := by
  unfold executeClaimedStep
  cases hk : requiredStepStr step "id" with
  | error => trivial
  | ok k =>
  cases he : requiredStepInt step "assignment_epoch" with
  | error => trivial
  | ok e =>
  have hclaim : claimOf step = some (k, e) := claimOf_eq_some.2 ⟨hk, he⟩
  refine ⟨nofun, fun m a => ?_⟩
  cases a with
  | error exc => exact failStep_follows worker k e exc _
  | ok v =>
    refine ⟨⟨⟨k, e, m, _, v, hclaim, List.mem_cons_self⟩, by simp⟩, fun o => ?_⟩
    cases o with
    | error exc => exact failStep_follows worker k e exc _
    | ok outputJson =>
      cases hf : reportsFailure outputJson with
      | true =>
        show Client.Follows MayCall MayRun _ (Client.tryCatch
          (if reportsFailure outputJson then _ else _) _)
        rw [if_pos hf]
        exact failStep_tryCatch_follows worker k e _ _
      | false =>
        show Client.Follows MayCall MayRun _ (Client.tryCatch
          (if reportsFailure outputJson then _ else _) _)
        rw [if_neg (by simp [hf])]
        constructor
        · intro k' body hb
          cases hb
          exact ⟨step, hclaim, List.mem_cons_self, hf⟩
        · intro m' a
          cases a with
          | ok => trivial
          | error exc => exact failStep_follows worker k e exc _

/-! ## Starts -/

/-- The change of a row that an accepted `start` under epoch `e` makes. -/
def StartsUnder (e : ℤ) (x x' : Step) : Prop :=
  x.status = .assigned ∧ x.assignmentEpoch = e ∧ x'.status = .running ∧ x'.assignmentEpoch = e

/-- The transition starts step `k` under epoch `e`. -/
def starts (t : Trans app.controller) (k : String) (e : ℤ) : Prop :=
  RowChange k (StartsUnder e) t.pre.db t.post.db

theorem loadOwnedStep_before {A : Db → Prop} {W : Db → Db → Prop}
    {fin : Except HttpError Step → Prop} {n : String} (he : ∀ err, fin (.error err))
    (hf : ∀ x : Step, x.id = k → x.assignmentEpoch = e → fin (.ok x)) :
    Before A W fin (loadOwnedStep k n e) := by
  refine Before.bind (Before.bind (Before.read fun db _ => Or.inr ?_))
  cases hx : db.steps.get? k with
  | none => exact he _
  | some x =>
    show Before A W fin ((validateWorkerOwnership x n).bind _)
    unfold validateWorkerOwnership
    split_ifs
    · exact he _
    · show Before A W fin ((validateEpochOr409 x e).bind _)
      unfold validateEpochOr409 validateAssignmentEpoch
      by_cases hxe : x.assignmentEpoch = e
      · rw [if_neg (not_not.2 hxe)]
        exact hf x (Table.key_of_get? hx) hxe
      · rw [if_pos hxe]
        exact he _

theorem transitionOr409_before {A : Db → Prop} {W : Db → Db → Prop}
    {fin : Except HttpError StepStatus → Prop} {x : Step} {target : StepStatus}
    (he : ∀ err, fin (.error err)) (hf : fin (.ok target)) :
    Before A W fin (transitionOr409 x target) := by
  unfold transitionOr409 transitionStep
  by_cases ht : target ∈ legalStepTransitions x.status
  · rw [if_neg (not_not.2 ht)]
    exact hf
  · rw [if_pos ht]
    exact he _

/-- A `start` is accepted only after it has started its step. -/
theorem handle_starts (app : App) (r : Request) (hr : r.call = .startStep k ⟨e⟩) :
    Before (fun _ => True) (RowChange k (StartsUnder e)) (fun o => ∀ v, o ≠ .ok v)
      (app.handle r) := by
  have herr : ∀ {α : Type} (err : HttpError) (v : α), Except.error err ≠ Except.ok v := nofun
  refine Before.seq _ (fun err => herr err) fun _ => ?_
  rw [hr]
  refine Before.seq _ (fun err => herr err) fun n => Before.bind ?_
  refine Before.bind (loadOwnedStep_before (fun err => herr err) fun x hid hxe => ?_)
  subst hid
  dsimp only
  refine Before.bind (transitionOr409_before (fun err => herr err) ?_)
  refine Before.bind (persistStepUpdateOr409_changes (fun err => herr err) fun y hy => ?_)
  simp only [persistGuard, decide_eq_true_eq, List.mem_singleton] at hy
  exact ⟨hy.2.2.2.1, hy.2.1.trans hxe, rfl, hy.2.1.trans hxe⟩

/-- The row cannot be started under epoch `e` any more. -/
def Past (e : ℤ) (x : Step) : Prop :=
  e < x.assignmentEpoch ∨ e = x.assignmentEpoch ∧ x.status ≠ .queued ∧ x.status ≠ .assigned

theorem StepWrite.past {db : Db} {r : Request} {x x' : Step} (h : StepWrite db r x x')
    (hp : Past e x) : Past e x' := by
  rcases hp with hlt | ⟨rfl, hq, ha⟩
  · rcases h.assign_or with ⟨-, n, now, rfl, -⟩ | ⟨-, he, -⟩
    · exact Or.inl (hlt.trans (Int.lt_succ _))
    · exact Or.inl (he ▸ hlt)
  · cases h with
    | assign _ hs => exact absurd hs hq
    | claimNext _ hs | claim _ _ hs | start _ _ hs => exact absurd hs ha
    | progress => exact Or.inr ⟨rfl, hq, ha⟩
    | complete | fail => exact Or.inr ⟨rfl, nofun, nofun⟩

theorem App.Run.past (h : app.Run db₀ tr c) (k : String) (e : ℤ) :
    ∀ t ∈ tr, starts t k e → ∃ x, c.db.steps.get? k = some x ∧ Past e x := by
  refine h.row_inv (P := fun tr o => ∀ t ∈ tr, starts t k e → ∃ x, o = some x ∧ Past e x)
    (fun t ht => absurd ht List.not_mem_nil) fun tr t hs ih t' ht' hst => ?_
  rcases List.mem_cons.1 ht' with rfl | ht'
  · obtain ⟨x, x', -, hx', -, -, hrun, he⟩ := hst
    exact ⟨x', hx', Or.inr ⟨he.symm, by simp [hrun], by simp [hrun]⟩⟩
  · obtain ⟨x, hx, hp⟩ := ih t' ht' hst
    cases hs with
    | same h => exact ⟨x, h.trans hx, hp⟩
    | write _ hy hy' hw =>
      cases hx.symm.trans hy
      exact ⟨_, hy', hw.past hp⟩
    | recover _ hy _ hy' =>
      cases hx.symm.trans hy
      refine ⟨_, hy', Or.inl ?_⟩
      have he : x.recovered.assignmentEpoch = x.assignmentEpoch + 1 := by
        unfold Step.recovered; split_ifs <;> rfl
      rw [he]
      rcases hp with hp | ⟨hp, -⟩ <;> omega
    | create _ _ hn => rw [hn] at hx; cases hx

/-- **A step is started at most once under an epoch.** -/
theorem App.Run.start_unique (h : app.Run db₀ tr c) {t t' : Trans app.controller} (ht : t ∈ tr)
    (ht' : t' ∈ tr) (hs : starts t k e) (hs' : starts t' k e) : t = t' := by
  have hpair : tr.Pairwise fun t t' => ¬ (starts t k e ∧ starts t' k e) := by
    refine h.pairwise fun tr₁ t h₁ _ t' ht' hboth => ?_
    obtain ⟨⟨x, x', hx, -, hassigned, he, -⟩, hs'⟩ := hboth
    obtain ⟨y, hy, hp⟩ := App.Run.past h₁ k e t' ht' hs'
    cases hx.symm.trans hy
    rcases hp with hp | ⟨-, -, hp⟩
    · exact absurd he hp.ne'
    · exact hp hassigned
  have hsymm : Std.Symm fun t t' : Trans app.controller => ¬ (starts t k e ∧ starts t' k e) :=
    ⟨fun _ _ h h' => h h'.symm⟩
  by_contra hne
  exact hpair.forall ht ht' hne ⟨hs, hs'⟩

/-- An accepted `start` has started its step. -/
theorem App.Run.started (h : app.Run db₀ tr c) {i : ℕ} {r : Request} {q : Handler Response}
    {v : Response} (hi : c.procs[i]? = some (r, q)) (hq : outcome q = some (.ok v))
    (hr : r.call = .startStep k ⟨e⟩) : ∃ t ∈ tr, t.act = .act i ∧ starts t k e := by
  have hB : ∀ r, Before (fun _ => True) (RowChange k (StartsUnder e))
      (fun o => r.call = .startStep k ⟨e⟩ → ∀ v, o ≠ .ok v) (app.handle r) := by
    intro r
    by_cases hr : r.call = .startStep k ⟨e⟩
    · exact (handle_starts app r hr).imp fun o h _ => h
    · exact Before.of_forall (fun o h => absurd h hr) _
  obtain rfl : q = .ret v := by
    cases q with
    | ret => cases hq; rfl
    | throw | act => cases hq
  rcases Service.Run.before hB h (fun _ _ => trivial) i r _ hi with ⟨t, ht, hby, hs⟩ | hfin
  · exact ⟨t, ht, hby.1, hs⟩
  · exact absurd rfl (hfin hr v)

/-! ## Completions -/

/-- **A completed row was written by a `complete`** for its epoch. -/
theorem App.Run.completed_by (h₀ : db₀.Initial) (h : app.Run db₀ tr c) {x : Step}
    (hx : c.db.steps.get? k = some x) (hs : x.status = .completed) :
    ∃ t ∈ tr, ∃ i r body, t.By i r ∧ r.call = .completeStep k body ∧
      body.assignmentEpoch = x.assignmentEpoch ∧ x.outputJson = some body.outputJson := by
  have key : ∀ x, c.db.steps.get? k = some x → x.status = .completed →
      ∃ t ∈ tr, ∃ i r body, t.By i r ∧ r.call = .completeStep k body ∧
        body.assignmentEpoch = x.assignmentEpoch ∧ x.outputJson = some body.outputJson := by
    refine h.row_inv (P := fun tr o => ∀ x, o = some x → x.status = .completed →
      ∃ t ∈ tr, ∃ i r body, t.By i r ∧ r.call = .completeStep k body ∧
        body.assignmentEpoch = x.assignmentEpoch ∧ x.outputJson = some body.outputJson)
      (fun x hx hs => ?_) fun tr t hrow ih x' hx' hs => ?_
    · rcases (h₀.steps x (Table.mem_of_get? hx)).status with hi | hi <;> simp [hi] at hs
    · have hold : (∃ x, rowBefore t k = some x ∧ x.status = .completed ∧
          x.assignmentEpoch = x'.assignmentEpoch ∧ x.outputJson = x'.outputJson) →
          ∃ t' ∈ t :: tr, ∃ i r body, t'.By i r ∧ r.call = .completeStep k body ∧
            body.assignmentEpoch = x'.assignmentEpoch ∧ x'.outputJson = some body.outputJson := by
        rintro ⟨x, hx, hxs, he, ho⟩
        obtain ⟨t', ht', i, r, body, hrest⟩ := ih x hx hxs
        exact ⟨t', List.mem_cons_of_mem _ ht', i, r, body, he ▸ ho ▸ hrest⟩
      cases hrow with
      | same h => exact hold ⟨x', h.symm.trans hx', hs, rfl, rfl⟩
      | @write i r y y' hby hy hy' hw =>
        cases hx'.symm.trans hy'
        cases hw with
        | assign | start | fail => exact nomatch hs
        | claimNext _ hq | claim _ _ hq | progress _ _ hq => exact nomatch hq.symm.trans hs
        | complete hc hf =>
          have hfence := hf.fence
          rw [hc] at hfence
          obtain ⟨rfl, he⟩ := Prod.mk.inj (Option.some.inj hfence)
          obtain rfl : y.id = k := Table.key_of_get? hy
          exact ⟨t, List.mem_cons_self, i, r, _, hby, hc, he, rfl⟩
      | recover _ _ _ hy' =>
        cases hx'.symm.trans hy'
        unfold Step.recovered at hs
        split_ifs at hs
      | create _ _ _ hy' => cases hx'.symm.trans hy'; cases hs
  exact key x hx hs

/-- **A completed row stays as it is.** -/
theorem App.Run.completed_stays {c' : Conf Db HttpError Response Request}
    {tr' : List (Trans app.controller)} (h : app.Run db₀ tr c) (h' : app.controller.Run c tr' c')
    {x : Step} (hx : c.db.steps.get? k = some x) (hs : x.status = .completed) :
    c'.db.steps.get? k = some x := by
  induction h' with
  | init => exact hx
  | @step tr' c' h' a ih =>
    have hrun : app.Run db₀ _ _ := (h.append h').step a
    have hR := hrun.rely (t := ⟨c', a⟩) List.mem_cons_self
    obtain ⟨x', hx', hk⟩ := hR.row k x ih
    rwa [hk.final (Or.inl hs)] at hx'

/-! ## Workers and Controller -/

/-- The claimed step names step `k` and epoch `e`. -/
def claims (k : String) (e : ℤ) (step : Dict) : Bool := claimOf step = some (k, e)

theorem claims_eq {step : Dict} (h : claims k e step) : claimOf step = some (k, e) :=
  of_decide_eq_true h

theorem obeys_of_inv {w : World app.system} (h : World.Inv db₀ w) {i : ℕ}
    {p : Process HttpRequest (Option Response) Dict Dict String} (hp : w.procs[i]? = some p) :
    Obeys MayCall MayRun p.log := by
  obtain ⟨x, hx⟩ := h.reached i p hp
  exact (hx.obeys (executeClaimedStep_follows x.1 x.2)).1

/-- A process that has invoked the runner has started the step, in a handler that
    is its own. -/
theorem start_of_invocation {w : World app.system} (h : World.Inv db₀ w)
    (hr : app.Run db₀ tr w.conf) {i : ℕ}
    {p : Process HttpRequest (Option Response) Dict Dict String} (hp : w.procs[i]? = some p)
    (hne : p.invocations (claims k e) ≠ []) :
    ∃ (m : ℕ) (b : HttpRequest) (j : ℕ), w.msgs[m]? = some ⟨i, b, some j⟩ ∧
      ∃ t ∈ tr, t.act = .act j ∧ starts t k e := by
  obtain ⟨step, hstep⟩ := List.exists_mem_of_ne_nil _ hne
  obtain ⟨ev, hev, hs⟩ := List.mem_filterMap.1 hstep
  cases ev with
  | answered | returned => cases hs
  | invoked s =>
    simp only [Option.ite_none_right_eq_some, Option.some.injEq] at hs
    obtain ⟨hcl, rfl⟩ := hs
    have hobeys : Obeys MayCall Accepted p.log :=
      (obeys_of_inv h hp).imp (fun _ _ h => h) fun _ _ h => h.1
    obtain ⟨k', e', m, hd, v, hcl', ha⟩ := hobeys.invoked (fun ev _ _ h => h.cons ev) hev
    cases (claims_eq hcl).symm.trans hcl'
    obtain ⟨j, env, q, o, hm, hj, ho, hans⟩ := h.handler hp ha
    cases o with
    | error err => cases hans
    | ok resp => exact ⟨m, _, j, hm, hr.started hj ho rfl⟩

/-- One process only invokes the runner for a step and an epoch. -/
theorem invocation_unique {w : World app.system} (h : World.Inv db₀ w) {i j : ℕ}
    {p p' : Process HttpRequest (Option Response) Dict Dict String} (hp : w.procs[i]? = some p)
    (hp' : w.procs[j]? = some p') (hne : p.invocations (claims k e) ≠ [])
    (hne' : p'.invocations (claims k e) ≠ []) : i = j := by
  obtain ⟨tr, hr⟩ := h.run
  obtain ⟨m, b, n, hm, t, ht, hact, hs⟩ := start_of_invocation h hr hp hne
  obtain ⟨m', b', n', hm', t', ht', hact', hs'⟩ := start_of_invocation h hr hp' hne'
  obtain rfl := App.Run.start_unique hr ht ht' hs hs'
  obtain rfl : n = n' := Act.act.inj (hact.symm.trans hact')
  obtain rfl := h.unique m m' i j b b' n hm hm'
  cases hm.symm.trans hm'
  rfl

/-- **The runner is invoked at most once** for a step and an epoch. -/
theorem invocations_le_one {w : World app.system} (h : World.Inv db₀ w) (k : String)
    (e : ℤ) : (w.invocations (claims k e)).length ≤ 1 := by
  refine length_flatMap_le_one (fun p hp => ?_) fun i j p p' hp hp' hne hne' => ?_
  · obtain ⟨i, hi⟩ := List.getElem?_of_mem hp
    exact (obeys_of_inv h hi).invocations_le_one (fun _ _ h => h.2) _
  · exact invocation_unique h hp hp' hne hne'

/-- A completed step holds what a run under its epoch returned. -/
theorem result_of_completed {w : World app.system} (h₀ : db₀.Initial)
    (h : World.Inv db₀ w) {x : Step} (hx : w.conf.db.steps.get? x.id = some x)
    (hs : x.status = .completed) : ∃ d, .ok d ∈ w.results (claims x.id x.assignmentEpoch) ∧
      reportsFailure d = false ∧ x.outputJson = some d := by
  obtain ⟨tr, hr⟩ := h.run
  obtain ⟨t, ht, i, r, body, hby, hc, he, ho⟩ := App.Run.completed_by h₀ hr hx hs
  obtain ⟨q, hq⟩ := Service.Run.handler_stays hr ht hby
  have hforeign : ¬ app.system.foreign r := by
    simp only [App.system, hc, Bool.false_eq_true, not_false_eq_true]
  obtain ⟨j, p, m, b, env, hp, hm, rfl⟩ := h.poster hq hforeign
  obtain ⟨y, hy⟩ := h.reached j p hp
  obtain ⟨step, hcl, hres, hf⟩ := hy.posted (executeClaimedStep_follows y.1 y.2)
    (fun ev _ _ h => h.cons ev) hm x.id body hc
  refine ⟨body.outputJson, List.mem_flatMap.2 ⟨p, List.mem_of_getElem? hp,
    List.mem_filterMap.2 ⟨_, hres, if_pos ?_⟩⟩, hf, ho⟩
  exact decide_eq_true (he ▸ hcl)

/-- **At most one execution, and truthful completion.**  In every reachable world
    the step runner was invoked at most once for every step and epoch; and a
    completed step holds the dictionary, with a status other than `failed`, that
    the run under its epoch returned, and keeps it in every later world. -/
theorem at_most_once {w : World app.system} (h₀ : db₀.Initial)
    (h : World.Reach (World.init app.system db₀) w) :
    (∀ k e, (w.invocations (claims k e)).length ≤ 1) ∧
    ∀ x ∈ w.conf.db.steps.rows, x.status = .completed →
      (∃ d, w.results (claims x.id x.assignmentEpoch) = [.ok d] ∧ reportsFailure d = false ∧
        x.outputJson = some d) ∧
      ∀ w' : World app.system, World.Reach w w' → w'.conf.db.steps.get? x.id = some x := by
  have hinv := h.inv
  refine ⟨invocations_le_one hinv, fun x hx hs => ⟨?_, fun w' hw' => ?_⟩⟩
  · obtain ⟨d, hd, hf, ho⟩ := result_of_completed h₀ hinv (Table.get?_of_mem hx) hs
    have hle : (w.results (claims x.id x.assignmentEpoch)).length ≤ 1 :=
      (hinv.results_le _).trans (invocations_le_one hinv _ _)
    refine ⟨d, ?_, hf, ho⟩
    generalize w.results _ = l at hd hle
    match l, hle with
    | [a], _ => rw [List.mem_singleton.1 hd]
  · obtain ⟨tr, hr⟩ := hinv.run
    obtain ⟨tr', hr'⟩ := hw'.run
    exact App.Run.completed_stays hr hr' (Table.get?_of_mem hx) hs

/-- The claimed `step_a`, as `claim-next` returns it to the Worker of `mac`. -/
def sampleClaimed : Dict := [("id", .str "step_a"), ("assignment_epoch", .int 1)]

/-- A Worker process of `mac`. -/
def sampleWorker : WorkerAgent := ⟨"mac", "key", fun _ => ""⟩

/-- Requests from elsewhere, handled one after another, the first being the
    `n`-th. -/
def foreignMoves (n : ℕ) (rs : List Request) :
    List (Move Request String Ambient (WorkerAgent × Dict) Dict String) :=
  (oneByOne n rs).reverse.map .service

/-- A message handed over and answered, its handler being the `n`-th. -/
def callMoves (m n : ℕ) (now : ℤ) :
    List (Move Request String Ambient (WorkerAgent × Dict) Dict String) :=
  [.post 0, .deliver m (sampleRequest now (.listNodes 0 0)).ambient] ++
    List.replicate 7 (.service (.act n)) ++ [.receive 0]

/-- `step_a` is assigned and claimed, a process of `mac` starts it, runs it and
    completes it. -/
def sampleExecution : World sampleApp.system :=
  (World.init sampleApp.system Db.empty).after
    (foreignMoves 0 (sampleAssigned ++ [sampleRequest 3 (.claimNext ⟨"mac"⟩)]) ++
      [.spawn (sampleWorker, sampleClaimed)] ++ callMoves 0 4 4 ++
      [.invoke 0, .finish 0 (.ok [("status", .str "completed")])] ++ callMoves 1 5 5)

theorem at_most_once_sample :
    sampleExecution.conf.db.steps.rows.map Step.status = [.completed] ∧
      (∀ k e, (sampleExecution.invocations (claims k e)).length ≤ 1) ∧
      ∀ x ∈ sampleExecution.conf.db.steps.rows, x.status = .completed →
        ∃ d, sampleExecution.results (claims x.id x.assignmentEpoch) = [.ok d] ∧
          reportsFailure d = false ∧ x.outputJson = some d := by
  have hreach : World.Reach (World.init sampleApp.system Db.empty) sampleExecution := by
    unfold sampleExecution
    exact World.reach_after .refl _
  obtain ⟨hle, hdone⟩ := at_most_once Db.empty_initial hreach
  exact ⟨by decide +kernel, hle, fun x hx hs => (hdone x hx hs).1⟩

end MediaOrchard
