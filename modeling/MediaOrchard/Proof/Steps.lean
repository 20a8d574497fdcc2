/-
  Steps over whole runs.

  * `epoch_fence`: a lifecycle request changes a step only under its current
    assignment, and no two assignments of a step share an epoch;
  * `exclusive_lease`: an assignment is claimed at most once, by its node;
  * `step_rows`: legal moves, the columns of each status, the epoch as a count,
    and completed rows as final.
-/
import MediaOrchard.Proof.Rows

namespace MediaOrchard

open Keyed Interleave Prog

variable {app : App} {t : Trans app.controller} {k : String} {db₀ : Db}
  {tr : List (Trans app.controller)} {c : Conf Db HttpError Response Request}

/-! ## Epochs and assignments -/

/-- The epoch of a row, 0 if there is none. -/
def epochOf (o : Option Step) : ℤ := (o.map Step.assignmentEpoch).getD 0

theorem assigns_eq {x x' : Step} (hx : rowBefore t k = some x) (hx' : rowAfter t k = some x') :
    assigns t k = (decide (x.status = .queued) && decide (x'.status = .assigned)) := by
  simp [assigns, hx, hx']

theorem assigns_of_same (h : rowAfter t k = rowBefore t k) : assigns t k = false := by
  unfold assigns
  rw [h]
  cases rowBefore t k with
  | none => rfl
  | some x => cases hs : x.status <;> simp [hs]

theorem assigns_of_none (h : rowBefore t k = none) : assigns t k = false := by
  simp [assigns, h]

/-- Only the scheduler assigns; every other write leaves epoch and node alone. -/
theorem StepWrite.assign_or {r : Request} {db : Db} {x x' : Step} (h : StepWrite db r x x') :
    (x.status = .queued ∧ ∃ n now, x' = x.assigned n now ∧ (db.nodes.get? n).isSome) ∨
      (x.status ≠ .queued ∧ x'.assignmentEpoch = x.assignmentEpoch ∧
        x'.assignedNodeId = x.assignedNodeId ∧ x'.assignedAt = x.assignedAt) := by
  cases h with
  | assign _ hs hn => exact Or.inl ⟨hs, _, _, rfl, hn⟩
  | claimNext _ hs | claim _ _ hs | start _ _ hs | progress _ _ hs | complete _ _ hs =>
    exact Or.inr ⟨by simp [hs], rfl, rfl, rfl⟩
  | fail _ _ hs => exact Or.inr ⟨by rcases hs with hs | hs <;> simp [hs], rfl, rfl, rfl⟩

/-- **Every assignment and every recovery raises the epoch by one**, and nothing
    else changes it. -/
theorem RowStep.epoch (h : RowStep t k) : epochOf (rowAfter t k) = epochOf (rowBefore t k) +
    (if assigns t k then 1 else 0) + (if recovers t k then 1 else 0) := by
  cases h with
  | same h hr => simp [h, hr, assigns_of_same h]
  | @write i r x x' hby hx hx' hw =>
    rw [assigns_eq hx hx', recovers_of_by hby, hx, hx']
    rcases hw.assign_or with ⟨hq, n, now, rfl, -⟩ | ⟨hq, he, -⟩
    · simp [hq, Step.assigned, epochOf]
    · simp [hq, he, epochOf]
  | @recover x hact hx hs hx' =>
    have hr : recovers t k := recovers_iff.2 ⟨hact, x, hx, hs⟩
    have ha : x.status ≠ .queued := by rcases hs with hs | hs <;> simp [hs]
    have he : x.recovered.assignmentEpoch = x.assignmentEpoch + 1 := by
      unfold Step.recovered; split_ifs <;> rfl
    rw [assigns_eq hx hx', hx, hx', hr]
    simp [ha, he, epochOf]
  | create hby hc hx hx' =>
    rw [assigns_of_none hx, recovers_of_by hby, hx, hx']
    rfl

theorem RowStep.epoch_le (h : RowStep t k) :
    epochOf (rowBefore t k) ≤ epochOf (rowAfter t k) := by
  rw [h.epoch]
  split_ifs <;> omega

theorem App.Run.epoch_eq (h₀ : db₀.Initial) (h : app.Run db₀ tr c) (k : String) :
    epochOf (c.db.steps.get? k) = tr.countP (assigns · k) + tr.countP (recovers · k) := by
  refine h.row_inv (P := fun tr o => epochOf o =
    tr.countP (assigns · k) + tr.countP (recovers · k)) ?_ fun tr t ht ih => ?_
  · cases hx : db₀.steps.get? k with
    | none => rfl
    | some x => exact (h₀.steps x (Table.mem_of_get? hx)).epoch
  · rw [ht.epoch, ih, List.countP_cons, List.countP_cons]
    push_cast
    omega

/-- The epoch of a row bounds the epochs it had before. -/
theorem App.Run.epoch_after_le (h : app.Run db₀ tr c) (k : String) :
    ∀ t ∈ tr, epochOf (rowAfter t k) ≤ epochOf (c.db.steps.get? k) := by
  refine h.row_inv (P := fun tr o => ∀ t ∈ tr, epochOf (rowAfter t k) ≤ epochOf o)
    (fun t ht => absurd ht List.not_mem_nil) fun tr t ht ih t' ht' => ?_
  rcases List.mem_cons.1 ht' with rfl | ht'
  · exact le_rfl
  · exact (ih t' ht').trans ht.epoch_le

/-- The node and the epoch of a row. -/
def ownerOf (o : Option Step) : Option (String × ℤ) :=
  o.bind fun x => x.assignedNodeId.map fun n => (n, x.assignmentEpoch)

/-- **The row names the current assignment.** -/
theorem App.Run.current (h₀ : db₀.Initial) (h : app.Run db₀ tr c) (k : String) :
    currentAssignment k tr = ownerOf (c.db.steps.get? k) := by
  refine h.row_inv (P := fun tr o => currentAssignment k tr = ownerOf o) ?_ fun tr t ht ih => ?_
  · cases hx : db₀.steps.get? k with
    | none => rfl
    | some x => simp [currentAssignment, ownerOf, (h₀.steps x (Table.mem_of_get? hx)).node]
  · cases ht with
    | same h hr => simp only [currentAssignment, hr, assigns_of_same h, h, ih, Bool.false_eq_true,
        if_false]
    | @write i r x x' hby hx hx' hw =>
      simp only [currentAssignment, recovers_of_by hby, assigns_eq hx hx', Bool.false_eq_true,
        if_false]
      rcases hw.assign_or with ⟨hq, n, now, rfl, -⟩ | ⟨hq, he, hn, -⟩
      · simp [hq, hx', Step.assigned, ownerOf]
      · simp [hq, ih, hx, hx', ownerOf, he, hn]
    | @recover x hact hx hs hx' =>
      have hr : recovers t k := recovers_iff.2 ⟨hact, x, hx, hs⟩
      have hn : x.recovered.assignedNodeId = none := by
        unfold Step.recovered; split_ifs <;> rfl
      simp [currentAssignment, hr, hx', ownerOf, hn]
    | create hby hc hx hx' =>
      simp only [currentAssignment, recovers_of_by hby, assigns_of_none hx, ih, hx, hx',
        Bool.false_eq_true, if_false]
      rfl

/-- A lifecycle request changes no row but the fenced one. -/
theorem RowStep.fenced {i : ℕ} {r : Request} {e : ℤ} {k₀ : String} (h : RowStep t k)
    (hby : t.By i r) (hf : r.call.fence? = some (k₀, e)) (hne : rowAfter t k ≠ rowBefore t k) :
    ∃ x, rowBefore t k = some x ∧ Fenced r x := by
  have hreq : ∀ {j r'}, t.By j r' → r' = r := by
    rintro j r' ⟨h1, h2⟩
    rw [hby.1] at h1
    cases h1
    exact Option.some.inj (h2.symm.trans hby.2)
  cases h with
  | same h => exact absurd h hne
  | write hby' hx hx' hw =>
    obtain rfl := hreq hby'
    refine ⟨_, hx, ?_⟩
    cases hw with
    | assign hc | claimNext hc => rw [hc] at hf; cases hf
    | claim _ h | start _ h | progress _ h | complete _ h | fail _ h => exact h
  | recover hact => rw [hby.1] at hact; cases hact
  | create hby' hc =>
    obtain rfl := hreq hby'
    rw [hc] at hf; cases hf

/-- **The epoch fence.**  A lifecycle request that changes a row changes the
    step it names, while the assignment to its node and epoch is the current
    one; assignments and recoveries raise the epoch, which never falls; and two
    assignments of a step have different epochs. -/
theorem epoch_fence (h₀ : db₀.Initial) (h : app.Run db₀ tr c) :
    (∀ tr₂ t tr₁, tr = tr₂ ++ t :: tr₁ → ∀ i r k e, t.By i r → r.call.fence? = some (k, e) →
      ∀ s, rowAfter t s ≠ rowBefore t s → s = k ∧
        ∃ n, r.headers.xMediaorchardNodeId = some n ∧ currentAssignment k tr₁ = some (n, e)) ∧
    (∀ t ∈ tr, ∀ k, epochOf (rowBefore t k) ≤ epochOf (rowAfter t k) ∧
      (assigns t k ∨ recovers t k → epochOf (rowBefore t k) < epochOf (rowAfter t k))) ∧
    tr.Pairwise fun t t' => ∀ k, assigns t k → assigns t' k →
      epochOf (rowAfter t k) ≠ epochOf (rowAfter t' k) := by
  refine ⟨?_, fun t ht k => ⟨(h.rowStep ht k).epoch_le, fun hev => ?_⟩, ?_⟩
  · rintro tr₂ t tr₁ rfl i r k e hby hf s hne
    obtain ⟨x, hx, hfen⟩ := (h.rowStep (by simp) s).fenced hby hf hne
    obtain ⟨rfl, rfl⟩ := Prod.mk.inj (Option.some.inj (hf.symm.trans hfen.fence))
    obtain ⟨n, hn⟩ := Option.isSome_iff_exists.1 hfen.owned
    have hid : x.id = s := Table.key_of_get? hx
    refine ⟨hid.symm, n, hfen.owner.symm.trans hn, ?_⟩
    have hcur := App.Run.current h₀ (h.split rfl) x.id
    rw [hcur, hid, show t.pre.db.steps.get? s = some x from hx]
    simp [ownerOf, hn]
  · rw [(h.rowStep ht k).epoch]
    rcases hev with hev | hev <;> simp only [hev, if_true] <;> split_ifs <;> omega
  · refine h.pairwise fun tr₁ t h₁ h₂ t' ht' k ha ha' => ?_
    have hle : epochOf (rowAfter t' k) ≤ epochOf (rowBefore t k) :=
      App.Run.epoch_after_le h₁ k t' ht'
    have hstep := (App.Run.rowStep h₂ List.mem_cons_self k).epoch
    simp only [ha, if_true] at hstep
    have : epochOf (rowAfter t' k) < epochOf (rowAfter t k) := by
      rw [hstep]
      split_ifs <;> omega
    exact this.ne'

/-- `step_a` is assigned, recovered and assigned again. -/
def sampleReassigned : List (Act Request String) :=
  oneByOne 3 [sampleRequest 3 (.heartbeatNode "mac" sampleHeartbeat)] ++ .env "step_a" ::
    oneByOne 0 sampleAssigned

/-- The two assignments of the sample run have different epochs. -/
theorem epoch_fence_sample :
    (sampleRun sampleReassigned).1.countP (assigns · "step_a") = 2 ∧
      (sampleRun sampleReassigned).1.Pairwise fun t t' => ∀ k, assigns t k → assigns t' k →
        epochOf (rowAfter t k) ≠ epochOf (rowAfter t' k) :=
  ⟨by decide +kernel, (epoch_fence Db.empty_initial (sampleRun_run sampleReassigned)).2.2⟩

/-! ## The claim lease -/

/-- The transition grants the lease of step `k` under epoch `e`. -/
def grants (t : Trans app.controller) (k : String) (e : ℤ) : Bool :=
  (rowBefore t k).any (fun x => x.claimedAt = none ∧ x.assignmentEpoch = e) &&
    (rowAfter t k).any (·.claimedAt ≠ none)

/-- A request for the lease. -/
def Call.isClaim : Call → Bool
  | .claimNext _ | .claimStep _ _ => true
  | _ => false

/-- A lease changes only when it is granted, to the node that holds the step. -/
theorem StepWrite.claimed {r : Request} {db : Db} {x x' : Step} (h : StepWrite db r x x') :
    x'.claimedAt = x.claimedAt ∨ (r.call.isClaim ∧ x.status = .assigned ∧
      x.assignedNodeId = r.headers.xMediaorchardNodeId ∧ x.assignedNodeId.isSome ∧
      x.claimedAt = none ∧ x'.claimedAt.isSome ∧ x'.assignmentEpoch = x.assignmentEpoch) := by
  cases h with
  | assign | start | progress | complete | fail => exact Or.inl rfl
  | claimNext hc hs hn hh hcl =>
    exact Or.inr ⟨by rw [hc]; rfl, hs, hn.trans hh.symm, by rw [hn]; rfl, hcl, rfl, rfl⟩
  | claim hc hf hs hcl =>
    exact Or.inr ⟨by rw [hc]; rfl, hs, hf.owner, hf.owned, hcl, rfl, rfl⟩

theorem Step.recovered_claimedAt (x : Step) : x.recovered.claimedAt = x.claimedAt := by
  unfold Step.recovered; split_ifs <;> rfl

/-- What a transition does to the lease of an existing row. -/
theorem RowStep.claimed {x x' : Step} (h : RowStep t k) (hx : rowBefore t k = some x)
    (hx' : rowAfter t k = some x') : x'.claimedAt = x.claimedAt ∨
      ∃ i r, t.By i r ∧ r.call.isClaim ∧ x.status = .assigned ∧
        x.assignedNodeId = r.headers.xMediaorchardNodeId ∧ x.assignedNodeId.isSome ∧
        x.claimedAt = none ∧ x'.claimedAt.isSome ∧ x'.assignmentEpoch = x.assignmentEpoch := by
  cases h with
  | same h =>
    cases hx.symm.trans (h.symm.trans hx')
    exact Or.inl rfl
  | @write i r y y' hby hy hy' hw =>
    cases hx.symm.trans hy
    cases hx'.symm.trans hy'
    exact hw.claimed.imp id fun hc => ⟨i, r, hby, hc⟩
  | recover hact hy hs hy' =>
    cases hx.symm.trans hy
    cases hx'.symm.trans hy'
    exact Or.inl (Step.recovered_claimedAt x)
  | create hby hc hn => rw [hn] at hx; cases hx

/-- The row has been claimed. -/
def Claimed (o : Option Step) : Prop := ∃ x, o = some x ∧ x.claimedAt.isSome

/-- A lease, once granted, stays. -/
theorem App.Run.claimed_stays (h : app.Run db₀ tr c) (k : String) :
    ∀ t ∈ tr, Claimed (rowAfter t k) → Claimed (c.db.steps.get? k) := by
  refine h.row_inv (P := fun tr o => ∀ t ∈ tr, Claimed (rowAfter t k) → Claimed o)
    (fun t ht => absurd ht List.not_mem_nil) fun tr t hs ih t' ht' hc => ?_
  rcases List.mem_cons.1 ht' with rfl | ht'
  · exact hc
  · obtain ⟨x, hx, hxc⟩ := ih t' ht' hc
    cases hs with
    | same h => exact ⟨x, h.trans hx, hxc⟩
    | write _ hy hy' hw =>
      cases hx.symm.trans hy
      refine ⟨_, hy', ?_⟩
      rcases hw.claimed with he | hcl
      · rw [he]; exact hxc
      · rw [hcl.2.2.2.2.1] at hxc; cases hxc
    | recover _ hy _ hy' =>
      cases hx.symm.trans hy
      exact ⟨_, hy', by rw [Step.recovered_claimedAt]; exact hxc⟩
    | create _ _ hn => rw [hn] at hx; cases hx

theorem grants_iff {e : ℤ} : grants t k e ↔ ∃ x x', rowBefore t k = some x ∧
    rowAfter t k = some x' ∧ x.claimedAt = none ∧ x.assignmentEpoch = e ∧ x'.claimedAt.isSome := by
  simp only [grants, Bool.and_eq_true, Option.any_eq_true, decide_eq_true_eq, ne_eq,
    ← Option.isSome_iff_ne_none]
  constructor
  · rintro ⟨⟨x, hx, hc, he⟩, x', hx', hc'⟩
    exact ⟨x, x', hx, hx', hc, he, hc'⟩
  · rintro ⟨x, x', hx, hx', hc, he, hc'⟩
    exact ⟨⟨x, hx, hc, he⟩, x', hx', hc'⟩

/-- Some change of row `k` satisfies `A`. -/
def RowChange (k : String) (A : Step → Step → Prop) (db db' : Db) : Prop :=
  ∃ x x', db.steps.get? k = some x ∧ db'.steps.get? k = some x' ∧ A x x'

/-- `UPDATE … WHERE guard` has changed its row before it returns 1. -/
theorem updateSteps_before {guard : Step → Bool} {values : List StepValue} {sid : String}
    {A : Step → Step → Prop} {fin : Except HttpError ℕ → Prop} (hid : ∀ x, guard x → x.id = sid)
    (hA : ∀ x, guard x → A x (x.setValues values)) (hf : ∀ n, n ≠ 1 → fin (.ok n)) :
    Before (fun _ => True) (RowChange sid A) fin (atomic (updateSteps guard values)) := by
  refine Before.atomic fun db _ => ?_
  by_cases hc : db.steps.count guard = 1
  · obtain ⟨-, x, hx, hg, hx'⟩ := updateSteps_one values hid hc
    exact Or.inl ⟨x, x.setValues values, hx, hx', hA x hg⟩
  · exact Or.inr (by simpa [updateSteps, hc] using hf _ hc)

/-- `persist_step_update_or_409` has changed its row before it succeeds. -/
theorem persistStepUpdateOr409_changes {step : Step} {n : String} {from_ : List StepStatus}
    {values : List StepValue} {u : Bool} {A : Step → Step → Prop}
    {fin : Except HttpError Step → Prop} (he : ∀ e, fin (.error e))
    (hA : ∀ x, persistGuard step n from_ u x → A x (x.setValues values)) :
    Before (fun _ => True) (RowChange step.id A) fin
      (persistStepUpdateOr409 step n from_ values u) := by
  refine Before.bind (updateSteps_before (fun _ => persistGuard_id) hA fun rowcount hn => ?_)
  simp only [ne_eq, hn, not_false_eq_true, if_true]
  exact he _

/-- `persist_step_update_or_409` has changed the row it returns. -/
theorem persistStepUpdateOr409_before {step : Step} {n : String} {from_ : List StepStatus}
    {values : List StepValue} {u : Bool} {A : Step → Step → Prop} {k : String}
    {fin : Except HttpError Step → Prop} (he : ∀ e, fin (.error e))
    (hA : ∀ x, persistGuard step n from_ u x → A x (x.setValues values))
    (hf : ∀ x : Step, x.id ≠ k → fin (.ok x)) :
    Before (fun _ => True) (RowChange k A) fin (persistStepUpdateOr409 step n from_ values u) := by
  by_cases hk : step.id = k
  · subst hk
    exact persistStepUpdateOr409_changes he hA
  · refine Before.seq _ he fun rowcount => ?_
    split_ifs
    · exact he _
    · refine Before.bind (Before.read fun db _ => Or.inr ?_)
      cases hx : db.steps.get? step.id with
      | none => exact he _
      | some x => exact hf x ((Table.key_of_get? hx).trans_ne hk)

/-- A claim request is answered with the step whose lease it was granted. -/
theorem handle_grants (app : App) (r : Request) (hr : r.call.isClaim) (k : String) :
    Before (fun _ => True)
      (RowChange k fun x x' => x.claimedAt = none ∧ x'.claimedAt.isSome)
      (fun o => ∀ x, o = .ok (.step x) → x.id ≠ k) (app.handle r) := by
  have herr : ∀ (e : HttpError) x, Except.error e = .ok (Response.step x) → x.id ≠ k := by
    intro e x h
    cases h
  have hnone : ∀ x, (Except.ok Response.noContent : Except HttpError _) = .ok (.step x) →
      x.id ≠ k := by
    intro x h
    cases h
  refine Before.seq _ herr fun _ => ?_
  cases hc : r.call with
  | claimNext body =>
    refine Before.seq _ herr fun n => ?_
    unfold claimNext
    split_ifs
    · exact herr _
    · refine Before.bind (Before.seq _ herr fun o => ?_)
      cases o with
      | none => exact hnone
      | some step =>
        by_cases hk : step.id = k
        · subst hk
          refine Before.bind (updateSteps_before (fun x hx => ?_) (fun x hx => ?_) fun m hm => ?_)
          · simp only [claimNextGuard, decide_eq_true_eq] at hx
            exact hx.1
          · simp only [claimNextGuard, decide_eq_true_eq] at hx
            exact ⟨hx.2.2.2, rfl⟩
          · simp only [ne_eq, hm, not_false_eq_true, if_true]
            exact hnone
        · refine Before.seq _ herr fun m => ?_
          split_ifs
          · exact hnone
          · refine Before.read fun db _ => Or.inr ?_
            cases hx : db.steps.get? step.id with
            | none => exact hnone
            | some x =>
              intro y hy
              cases hy
              exact (Table.key_of_get? hx).trans_ne hk
  | claimStep stepId body =>
    refine Before.seq _ herr fun n => ?_
    refine Before.bind (Before.seq _ herr fun step => ?_)
    split_ifs
    · exact fun _ h => h.elim
    · refine persistStepUpdateOr409_before (fun _ _ h => h.elim) (fun x hx => ?_) fun x hx => ?_
      · simp only [persistGuard, decide_eq_true_eq] at hx
        exact ⟨hx.2.2.2.2 trivial, rfl⟩
      · intro y hy
        cases hy
        exact hx
  | _ => rw [hc] at hr; cases hr

/-- In a run, a claim request answered with a step was granted its lease. -/
theorem App.Run.claim_granted (h : app.Run db₀ tr c) {i : ℕ} {r : Request} {x : Step}
    (hp : c.procs[i]? = some (r, .ret (.step x))) (hr : r.call.isClaim) :
    ∃ t ∈ tr, t.By i r ∧ RowChange x.id (fun y y' => y.claimedAt = none ∧ y'.claimedAt.isSome)
      t.pre.db t.post.db := by
  have hB : ∀ r, Before (fun _ => True)
      (RowChange x.id fun y y' => y.claimedAt = none ∧ y'.claimedAt.isSome)
      (fun o => r.call.isClaim → ∀ y, o = .ok (.step y) → y.id ≠ x.id) (app.handle r) := by
    intro r
    by_cases hr : r.call.isClaim
    · exact (handle_grants app r hr x.id).imp fun o h _ => h
    · exact Before.of_forall (fun o h => absurd h hr) _
  rcases Service.Run.before hB h (fun _ _ => trivial) i r _ hp with ht | hfin
  · exact ht
  · exact absurd rfl (hfin hr x rfl)

/-- **The claim lease is exclusive.**  `claimed_at` changes only from null, by a
    claim of the node the step is assigned to; an epoch of a step is granted at
    most once; and a request answered with a step was granted its lease. -/
theorem exclusive_lease (h : app.Run db₀ tr c) :
    (∀ t ∈ tr, ∀ k x x', rowBefore t k = some x → rowAfter t k = some x' →
      x'.claimedAt ≠ x.claimedAt → x.claimedAt = none ∧ ∃ i r n, t.By i r ∧ r.call.isClaim ∧
        r.headers.xMediaorchardNodeId = some n ∧ x.status = .assigned ∧
        x.assignedNodeId = some n) ∧
    (tr.Pairwise fun t t' => ∀ k e, ¬ (grants t k e ∧ grants t' k e)) ∧
    ∀ i r x, c.procs[i]? = some (r, .ret (.step x)) → r.call.isClaim →
      ∃ t ∈ tr, t.By i r ∧ ∃ e, grants t x.id e ∧
        ∀ s body, r.call = .claimStep s body → s = x.id ∧ body.assignmentEpoch = e := by
  refine ⟨fun t ht k x x' hx hx' hne => ?_, h.pairwise fun tr₁ t h₁ h₂ t' ht' k e hg => ?_,
    fun i r x hp hr => ?_⟩
  · obtain ⟨i, r, hby, hc, hs, hn, hsome, hcl, -⟩ :=
      ((h.rowStep ht k).claimed hx hx').resolve_left hne
    obtain ⟨n, hx'⟩ := Option.isSome_iff_exists.1 hsome
    exact ⟨hcl, i, r, n, hby, hc, hn.symm.trans hx', hs, hx'⟩
  · obtain ⟨x, x', hx, hx', hcl, -, -⟩ := grants_iff.1 hg.1
    obtain ⟨-, y', -, hy', -, -, hcl'⟩ := grants_iff.1 hg.2
    obtain ⟨z, hz, hzc⟩ := App.Run.claimed_stays h₁ k t' ht' ⟨y', hy', hcl'⟩
    cases hx.symm.trans hz
    rw [hcl] at hzc; cases hzc
  · obtain ⟨t, ht, hby, y, y', hy, hy', hcl, hcl'⟩ := h.claim_granted hp hr
    refine ⟨t, ht, hby, _, grants_iff.2 ⟨y, y', hy, hy', hcl, rfl, hcl'⟩, fun s body hc => ?_⟩
    have hne : rowAfter t x.id ≠ rowBefore t x.id := by
      rw [show rowAfter t x.id = _ from hy', show rowBefore t x.id = _ from hy]
      rintro h
      cases h
      rw [hcl] at hcl'; cases hcl'
    obtain ⟨z, hz, hf⟩ := (h.rowStep ht x.id).fenced hby
      (show r.call.fence? = some (s, body.assignmentEpoch) by rw [hc]; rfl) hne
    cases hy.symm.trans hz
    have hfence := hf.fence
    simp only [hc, Call.fence?, Option.some.injEq, Prod.mk.injEq] at hfence
    exact ⟨hfence.1.trans (Table.key_of_get? hy), hfence.2⟩

/-- Of two requests that claim `step_a` in a row, one is granted the lease. -/
theorem exclusive_lease_sample :
    (sampleRun (oneByOne 0 (sampleAssigned ++ [sampleRequest 3 (.claimNext ⟨"mac"⟩),
        sampleRequest 4 (.claimStep "step_a" ⟨1⟩)]))).1.countP (grants · "step_a" 1) = 1 ∧
      (sampleRun (oneByOne 0 (sampleAssigned ++ [sampleRequest 3 (.claimNext ⟨"mac"⟩),
        sampleRequest 4 (.claimStep "step_a" ⟨1⟩)]))).1.Pairwise fun t t' =>
          ∀ k e, ¬ (grants t k e ∧ grants t' k e) :=
  ⟨by decide +kernel, (exclusive_lease (sampleRun_run _)).2.1⟩

/-! ## The rows -/

/-- What holds of a step row in every reachable state. -/
structure Step.Inv (db : Db) (x : Step) : Prop where
  node : x.status = .assigned ∨ x.status = .running →
    ∃ n, x.assignedNodeId = some n ∧ (db.nodes.get? n).isSome
  assignedAt : x.status = .assigned ∨ x.status = .running → x.assignedAt.isSome
  epoch : x.status = .assigned ∨ x.status = .running → 1 ≤ x.assignmentEpoch
  queued : x.status = .queued → x.assignedNodeId = none ∧ x.assignedAt = none
  started : x.status = .running ∨ x.status = .completed → x.startedAt.isSome

theorem Step.Initial.inv {x : Step} (h : x.Initial) (db : Db) : x.Inv db := by
  have hs := h.status
  constructor <;> intro h'
  case queued => exact ⟨h.node, h.assignedAt⟩
  all_goals rcases hs with hs | hs <;> simp [hs] at h'

theorem Step.Inv.mono {db db' : Db} {x : Step} (h : x.Inv db)
    (hn : ∀ n, (db.nodes.get? n).isSome → (db'.nodes.get? n).isSome) : x.Inv db' :=
  { h with node := fun hs => (h.node hs).imp fun n ⟨h1, h2⟩ => ⟨h1, hn n h2⟩ }

theorem StepWrite.inv {db : Db} {r : Request} {x x' : Step} (h : StepWrite db r x x')
    (he : 0 ≤ x.assignmentEpoch) (hx : x.Inv db) : x'.Inv db := by
  cases h with
  | assign _ hs hn =>
    refine ⟨fun _ => ⟨_, rfl, hn⟩, fun _ => rfl, fun _ => ?_, nofun, ?_⟩
    · simp only [Step.assigned]; omega
    · rintro (h | h) <;> cases h
  | claimNext | claim | progress => exact ⟨hx.node, hx.assignedAt, hx.epoch, hx.queued, hx.started⟩
  | start _ _ hs =>
    exact ⟨fun _ => hx.node (Or.inl hs), fun _ => hx.assignedAt (Or.inl hs),
      fun _ => hx.epoch (Or.inl hs), nofun, fun _ => rfl⟩
  | complete _ _ hs =>
    refine ⟨?_, ?_, ?_, nofun, fun _ => hx.started (Or.inl hs)⟩ <;> rintro (h | h) <;> cases h
  | fail =>
    refine ⟨?_, ?_, ?_, nofun, ?_⟩ <;> rintro (h | h) <;> cases h

theorem recovered_inv (db : Db) (x : Step) : x.recovered.Inv db := by
  have hs : x.recovered.status = .queued ∨ x.recovered.status = .failed := by
    unfold Step.recovered
    split_ifs <;> simp
  have hn : x.recovered.assignedNodeId = none ∧ x.recovered.assignedAt = none := by
    unfold Step.recovered
    split_ifs <;> exact ⟨rfl, rfl⟩
  constructor <;> intro h'
  case queued => exact hn
  all_goals rcases hs with hs | hs <;> simp [hs] at h'

theorem StepWrite.legal {db : Db} {r : Request} {x x' : Step} (h : StepWrite db r x x') :
    x'.status = x.status ∨ x'.status ∈ legalStepTransitions x.status := by
  cases h with
  | claimNext | claim | progress => exact Or.inl rfl
  | assign _ hs | start _ _ hs | complete _ _ hs =>
    exact Or.inr (by simp [hs, Step.assigned, legalStepTransitions])
  | fail _ _ hs => rcases hs with hs | hs <;> exact Or.inr (by simp [hs, legalStepTransitions])

/-- **Every change of status is a legal move**, a recovery of a running step
    going through `failed`. -/
theorem RowStep.legal {x x' : Step} (h : RowStep t k) (hx : rowBefore t k = some x)
    (hx' : rowAfter t k = some x') : x'.status = x.status ∨
      x'.status ∈ legalStepTransitions x.status ∨
      recovers t k ∧ x.status = .running ∧ .failed ∈ legalStepTransitions x.status ∧
        x'.status ∈ legalStepTransitions .failed := by
  cases h with
  | same h => cases hx.symm.trans (h.symm.trans hx'); exact Or.inl rfl
  | write _ hy hy' hw =>
    cases hx.symm.trans hy
    cases hx'.symm.trans hy'
    exact hw.legal.imp id Or.inl
  | recover hact hy hs hy' =>
    cases hx.symm.trans hy
    cases hx'.symm.trans hy'
    have hr : recovers t k := recovers_iff.2 ⟨hact, x, hx, hs⟩
    right
    rcases hs with hs | hs
    · left; simp [Step.recovered, hs, legalStepTransitions]
    · by_cases hm : x.retryCount + 1 ≤ x.maxRetries
      · right; simp [Step.recovered, hs, hm, hr, legalStepTransitions]
      · left; simp [Step.recovered, hs, hm, legalStepTransitions]
  | create _ _ hn => rw [hn] at hx; cases hx

theorem App.Run.inv (h₀ : db₀.Initial) (h : app.Run db₀ tr c) :
    ∀ k x, c.db.steps.get? k = some x → x.Inv c.db := by
  induction h with
  | init => exact fun k x hx => (h₀.steps x (Table.mem_of_get? hx)).inv _
  | @step tr c h a ih =>
    intro k x' hx'
    have hrun : app.Run db₀ _ _ := h.step a
    have hmono : ∀ {y : Step}, y.Inv c.db → y.Inv (app.controller.step c a).db := fun hy =>
      hy.mono fun n hn => hrun.node_kept (t := ⟨c, a⟩) List.mem_cons_self hn
    cases hrun.rowStep (t := ⟨c, a⟩) List.mem_cons_self k with
    | same hs => exact hmono (ih k x' (hs.symm.trans hx'))
    | @write i r y y' _ hy hy' hw =>
      cases hx'.symm.trans hy'
      have he := App.Run.epoch_eq h₀ h k
      rw [show c.db.steps.get? k = some y from hy] at he
      refine hmono (hw.inv ?_ (ih k y hy))
      simp only [epochOf, Option.map_some, Option.getD_some] at he
      omega
    | recover _ _ _ hy' => cases hx'.symm.trans hy'; exact recovered_inv _ _
    | create _ _ _ hy' => cases hx'.symm.trans hy'; exact (newRows_step_initial ..).inv _

/-- **The step rows of a run.**  (1) Every change of a status is a legal move;
    (2) every row satisfies `Step.Inv`; (3) its epoch counts its assignments
    and recoveries; (4) a completed row never changes. -/
theorem step_rows (h₀ : db₀.Initial) (h : app.Run db₀ tr c) :
    (∀ t ∈ tr, ∀ k x x', rowBefore t k = some x → rowAfter t k = some x' →
      x'.status = x.status ∨ x'.status ∈ legalStepTransitions x.status ∨
        recovers t k ∧ x.status = .running ∧ .failed ∈ legalStepTransitions x.status ∧
          x'.status ∈ legalStepTransitions .failed) ∧
    (∀ x ∈ c.db.steps.rows, x.Inv c.db) ∧
    (∀ x ∈ c.db.steps.rows, x.assignmentEpoch =
      tr.countP (assigns · x.id) + tr.countP (recovers · x.id)) ∧
    ∀ t ∈ tr, ∀ k x, rowBefore t k = some x → x.status = .completed → rowAfter t k = some x := by
  refine ⟨fun t ht k x x' hx hx' => (h.rowStep ht k).legal hx hx',
    fun x hx => App.Run.inv h₀ h x.id x (Table.get?_of_mem hx), fun x hx => ?_,
    fun t ht k x hx hs => ?_⟩
  · rw [← App.Run.epoch_eq h₀ h x.id, show c.db.steps.get? x.id = some x from Table.get?_of_mem hx]
    rfl
  · obtain ⟨x', hx', hk⟩ := (h.rely ht).row k x hx
    rw [rowAfter, hx', hk.final (Or.inl hs)]

/-- The rows of a run that assigns, claims, starts and completes `step_a`. -/
theorem step_rows_sample :
    let c := (sampleRun (oneByOne 0 (sampleAssigned ++ sampleCompleted))).2
    c.db.steps.rows.map Step.status = [.completed] ∧ ∀ x ∈ c.db.steps.rows, x.Inv c.db :=
  ⟨by decide +kernel, (step_rows Db.empty_initial (sampleRun_run _)).2.1⟩

end MediaOrchard
