/-
  A lease for every assignment.

  No operation sets `claimed_at` back to null, so a step is claimable under a new
  assignment as long as no recovery has put a claimed step back into the queue
  (`lease_per_assignment`).
-/
import MediaOrchard.Proof.Exec
import MediaOrchard.Proof.Steps

namespace MediaOrchard

open Keyed Interleave Prog

variable {app : App} {t : Trans app.controller} {db₀ : Db} {tr : List (Trans app.controller)}
  {c : Conf Db HttpError Response Request}

/-- If the transition is a recovery that puts a step back into the queue, that
    step is not claimed. -/
def RequeuesUnclaimed (t : Trans app.controller) : Prop :=
  ∀ k x, t.act = .env k → rowBefore t k = some x →
    x.status = .assigned ∨ x.status = .running ∧ x.retryCount < x.maxRetries →
    x.claimedAt = none

instance (t : Trans app.controller) : Decidable (RequeuesUnclaimed t) :=
  match h : t.act with
  | .env k => decidable_of_iff ((rowBefore t k).all fun x =>
      (x.status = .assigned ∨ x.status = .running ∧ x.retryCount < x.maxRetries) →
        x.claimedAt = none) (by
      simp only [Option.all_eq_true, decide_eq_true_eq, RequeuesUnclaimed]
      constructor
      · rintro hall k' x hk hx hs
        cases h.symm.trans hk
        exact hall x hx hs
      · exact fun hr x hx hs => hr k x h hx hs)
  | .arrive _ => .isTrue fun _ _ hk => nomatch h.symm.trans hk
  | .act _ => .isTrue fun _ _ hk => nomatch h.symm.trans hk

/-! ## The lease of a row -/

/-- A lease found on a row that waits is none, on an assigned row it is one
    granted under its epoch. -/
structure LeaseInv (k : String) (tr : List (Trans app.controller)) (x : Step) : Prop where
  waiting : x.status = .pending ∨ x.status = .queued → x.claimedAt = none
  assigned : x.status = .assigned → x.claimedAt ≠ none → ∃ t ∈ tr, grants t k x.assignmentEpoch

theorem LeaseInv.keep {k : String} {x x' : Step} (h : LeaseInv k tr x)
    (hs : x'.status = x.status) (hc : x'.claimedAt = x.claimedAt)
    (he : x'.assignmentEpoch = x.assignmentEpoch) : LeaseInv k (t :: tr) x' where
  waiting h' := hc.trans (h.waiting (hs ▸ h'))
  assigned h' hn := by
    obtain ⟨t', ht', hg⟩ := h.assigned (hs ▸ h') (hc ▸ hn)
    exact ⟨t', List.mem_cons_of_mem _ ht', he ▸ hg⟩

/-- A row in any other status has no lease to account for. -/
theorem LeaseInv.of_status {k : String} {x : Step}
    (h : x.status ≠ .pending ∧ x.status ≠ .queued ∧ x.status ≠ .assigned) : LeaseInv k tr x :=
  ⟨fun h' => by rcases h' with h' | h' <;> simp [h'] at h, fun h' => absurd h' h.2.2⟩

/-- **One transition accounts for the leases.** -/
theorem RowStep.leaseInv {k : String} {tr' : List (Trans app.controller)} (h : RowStep t k)
    (hc : RequeuesUnclaimed t) (ih : ∀ x, rowBefore t k = some x → LeaseInv k tr' x) {x' : Step}
    (hx' : rowAfter t k = some x') : LeaseInv k (t :: tr') x' := by
  cases h with
  | same h => exact (ih x' (h.symm.trans hx')).keep rfl rfl rfl
  | @write i r x y' hby hx hy' hw =>
    cases hx'.symm.trans hy'
    have hinv := ih x hx
    cases hw with
    | assign _ hs =>
      refine ⟨fun h => ?_, fun _ hn => absurd (hinv.waiting (Or.inr hs)) hn⟩
      rcases h with h | h <;> cases h
    | claimNext _ hs _ _ hn | claim _ _ hs hn =>
      refine ⟨fun h => ?_, fun _ _ => ⟨t, List.mem_cons_self, ?_⟩⟩
      · rcases h with h | h <;> cases hs.symm.trans h
      · exact grants_iff.2 ⟨_, _, hx, hx', hn, rfl, rfl⟩
    | progress => exact hinv.keep rfl rfl rfl
    | start | complete | fail => exact .of_status (by simp)
  | @recover x hact hx hs hy' =>
    cases hx'.symm.trans hy'
    constructor
    · intro h
      rw [Step.recovered_claimedAt]
      refine hc k x hact hx ?_
      rcases hs with hs | hs
      · exact Or.inl hs
      · refine Or.inr ⟨hs, ?_⟩
        by_contra hr
        have : ¬ x.retryCount + 1 ≤ x.maxRetries := by omega
        simp [Step.recovered, hs, this] at h
    · intro h
      have hne : x.recovered.status ≠ .assigned := by
        unfold Step.recovered
        split_ifs <;> simp
      exact absurd h hne
  | create _ _ _ hy' =>
    cases hx'.symm.trans hy'
    exact ⟨fun _ => rfl, fun h => by cases h⟩

theorem App.Run.leaseInv (h₀ : db₀.Initial) (h : app.Run db₀ tr c)
    (hc : ∀ t ∈ tr, RequeuesUnclaimed t) (k : String) :
    ∀ x, c.db.steps.get? k = some x → LeaseInv k tr x := by
  induction h with
  | init =>
    intro x hx
    have hi := h₀.steps x (Table.mem_of_get? hx)
    exact ⟨fun _ => hi.claimedAt, fun _ hn => absurd hi.claimedAt hn⟩
  | @step tr c h a ih =>
    intro x hx
    have hrun : app.Run db₀ _ _ := h.step a
    exact (hrun.rowStep (t := ⟨c, a⟩) List.mem_cons_self k).leaseInv
      (hc _ List.mem_cons_self) (ih fun t ht => hc t (List.mem_cons_of_mem _ ht)) hx

/-! ## Claiming an unclaimed step -/

/-- The row of a step claimed at `now`. -/
def Step.leased (x : Step) (now : Instant) : Step := { x with claimedAt := some now }

theorem Step.setValues_claimedAt (x : Step) (now : Instant) :
    x.setValues [.claimedAt now] = x.leased now := rfl

theorem claimStep_exec {r : Request} {db : Db} {x : Step} {n : String}
    (hx : db.steps.get? x.id = some x) (hs : x.status = .assigned)
    (hn : x.assignedNodeId = some n) (hcl : x.claimedAt = none)
    (hauth : requireWorkerAuth app r.headers = .ret ())
    (hid : requireWorkerNodeId r.headers = .ret n)
    (hc : r.call = .claimStep x.id ⟨x.assignmentEpoch⟩) :
    ((app.handle r).exec db).1 = .ok (.step (x.leased (r.ambient.clock 0))) := by
  have hg : persistGuard x n [.assigned] true x := by simp [persistGuard, hn, hs, hcl]
  have hexec : (claimStep r.ambient n x.id ⟨x.assignmentEpoch⟩).exec db =
      (.ok (x.leased (r.ambient.clock 0)), db.setStep (x.leased (r.ambient.clock 0))) := by
    unfold claimStep
    rw [bind_eq, exec_bind_ok (loadOwnedStep_exec hx hn), if_neg (by simp [hs]),
      persistStepUpdateOr409_exec _ hx hg, Step.setValues_claimedAt]
  unfold App.handle
  rw [hauth, hc]
  simp only [bind_eq, ret_bind, hid, exec_bind_ok hexec, pure_eq, exec_ret]

/-- The only candidate of a node is the first one. -/
theorem claimableSteps_head? {db : Db} {x : Step} {n : String} (hx : x ∈ db.steps.rows)
    (hs : x.status = .assigned) (hn : x.assignedNodeId = some n) (hcl : x.claimedAt = none)
    (hone : ∀ y ∈ db.steps.rows, y.status = .assigned → y.assignedNodeId = some n →
      y.claimedAt = none → y = x) : (claimableSteps db n).head? = some x := by
  have hmem : ∀ y, y ∈ claimableSteps db n ↔ y = x := by
    intro y
    simp only [claimableSteps, List.mem_insertionSort, Table.mem_select, decide_eq_true_eq]
    exact ⟨fun ⟨h1, h2, h3, h4⟩ => hone y h1 h2 h3 h4, fun h => h ▸ ⟨hx, hs, hn, hcl⟩⟩
  cases hl : claimableSteps db n with
  | nil => exact absurd ((hmem x).2 rfl) (by simp [hl])
  | cons y l => rw [List.head?_cons, (hmem y).1 (by simp [hl])]

theorem claimNext_exec {r : Request} {db : Db} {x : Step} {n : String}
    (hx : db.steps.get? x.id = some x) (hs : x.status = .assigned)
    (hn : x.assignedNodeId = some n) (hcl : x.claimedAt = none)
    (hone : ∀ y ∈ db.steps.rows, y.status = .assigned → y.assignedNodeId = some n →
      y.claimedAt = none → y = x)
    (hauth : requireWorkerAuth app r.headers = .ret ())
    (hid : requireWorkerNodeId r.headers = .ret n) (hc : r.call = .claimNext ⟨n⟩) :
    ((app.handle r).exec db).1 = .ok (.step (x.leased (r.ambient.clock 0))) := by
  have hu : updateSteps (claimNextGuard x n) [.claimedAt (r.ambient.clock 0)] db = _ :=
    updateSteps_eq _ (fun y hy => by
      simp only [claimNextGuard, decide_eq_true_eq] at hy
      exact hy.1) hx (by simp [claimNextGuard, hs, hn, hcl])
  have hget : (db.setStep (x.leased (r.ambient.clock 0))).steps.get? x.id = _ :=
    setStep_get?_self hx rfl
  have hexec : (claimNext r.ambient n ⟨n⟩).exec db = (.ok (some (x.leased (r.ambient.clock 0))),
      db.setStep (x.leased (r.ambient.clock 0))) := by
    have hhead := claimableSteps_head? (Table.mem_of_get? hx) hs hn hcl hone
    simp only [claimNext, ne_eq, not_true_eq_false, if_false, bind_eq, exec_bind, exec_read, hhead,
      exec_atomic, hu, Step.setValues_claimedAt, hget]
  unfold App.handle
  rw [hauth, hc]
  simp only [bind_eq, ret_bind, hid, exec_bind_ok hexec, pure_eq, exec_ret]

/-- **Every assignment can be claimed.**  In a run in which no recovery puts a
    claimed step back into the queue, `claimed_at` is null right after every
    assignment; and while a step is assigned and its epoch was not granted, the
    claims of its node succeed. -/
theorem lease_per_assignment (h₀ : db₀.Initial) (h : app.Run db₀ tr c)
    (hc : ∀ t ∈ tr, RequeuesUnclaimed t) :
    (∀ t ∈ tr, ∀ k x', assigns t k → rowAfter t k = some x' → x'.claimedAt = none) ∧
    ∀ x ∈ c.db.steps.rows, ∀ n, x.status = .assigned → x.assignedNodeId = some n →
      (∀ t ∈ tr, ¬ grants t x.id x.assignmentEpoch) →
      x.claimedAt = none ∧ ∀ r, requireWorkerAuth app r.headers = .ret () →
        requireWorkerNodeId r.headers = .ret n →
        (r.call = .claimNext ⟨n⟩ → (∀ y ∈ c.db.steps.rows, y.status = .assigned →
            y.assignedNodeId = some n → y.claimedAt = none → y = x) →
          ((app.handle r).exec c.db).1 = .ok (.step (x.leased (r.ambient.clock 0)))) ∧
        (r.call = .claimStep x.id ⟨x.assignmentEpoch⟩ →
          ((app.handle r).exec c.db).1 = .ok (.step (x.leased (r.ambient.clock 0)))) := by
  constructor
  · intro t ht k x' ha hx'
    obtain ⟨tr₁, h₁, hsub⟩ := Service.Run.of_mem h ht
    have hinv := App.Run.leaseInv h₀ h₁ (fun t' ht' => hc t' (hsub t' ht')) k
    simp only [assigns, Bool.and_eq_true, Option.any_eq_true, decide_eq_true_eq] at ha
    obtain ⟨⟨x, hx, hs⟩, -⟩ := ha
    have hnone : x.claimedAt = none := (hinv x hx).waiting (Or.inr hs)
    rcases (h.rowStep ht k).claimed hx hx' with he | ⟨i, r, -, -, hs', -⟩
    · exact he.trans hnone
    · rw [hs] at hs'; cases hs'
  · intro x hx n hs hn hg
    have hget : c.db.steps.get? x.id = some x := Table.get?_of_mem hx
    have hcl : x.claimedAt = none := by
      by_contra hne
      obtain ⟨t, ht, hgr⟩ := (App.Run.leaseInv h₀ h hc x.id x hget).assigned hs hne
      exact hg t ht hgr
    exact ⟨hcl, fun r hauth hid =>
      ⟨fun hcall hone => claimNext_exec hget hs hn hcl hone hauth hid hcall,
        fun hcall => claimStep_exec hget hs hn hcl hauth hid hcall⟩⟩

/-- A step recovered before it was claimed is claimable under its new epoch. -/
theorem lease_per_assignment_sample :
    let r := sampleRun sampleReassigned
    (∀ t ∈ r.1, ∀ k x', assigns t k → rowAfter t k = some x' → x'.claimedAt = none) ∧
      sampleStatus r.2.db (sampleRequest 9 (.claimStep "step_a" ⟨3⟩)) = 200 :=
  ⟨(lease_per_assignment Db.empty_initial (sampleRun_run sampleReassigned)
    (by decide +kernel)).1, by decide +kernel⟩

/-- `step_a` is assigned, claimed, recovered and assigned again. -/
def sampleReclaimed : List (Act Request String) :=
  oneByOne 4 [sampleRequest 4 (.heartbeatNode "mac" sampleHeartbeat)] ++ .env "step_a" ::
    oneByOne 0 (sampleAssigned ++ [sampleRequest 3 (.claimNext ⟨"mac"⟩)])

/-- A step recovered after it was claimed is not: it is assigned to `mac` under
    epoch 3 with its old lease, and no claim of `mac` succeeds. -/
theorem lease_per_assignment_fails :
    let r := sampleRun sampleReclaimed
    ¬ (∀ t ∈ r.1, ∀ k x', assigns t k → rowAfter t k = some x' → x'.claimedAt = none) ∧
      (r.2.db.steps.rows.map fun x => (x.status, x.assignedNodeId, x.assignmentEpoch)) =
        [(.assigned, some "mac", 3)] ∧
      sampleStatus r.2.db (sampleRequest 9 (.claimNext ⟨"mac"⟩)) = 204 ∧
      sampleStatus r.2.db (sampleRequest 9 (.claimStep "step_a" ⟨3⟩)) = 409 := by
  refine ⟨fun h => ?_, by decide +kernel⟩
  have hlate : (sampleRun sampleReclaimed).1.any (fun t =>
      assigns t "step_a" && (rowAfter t "step_a").any (·.claimedAt.isSome)) := by decide +kernel
  simp only [List.any_eq_true, Bool.and_eq_true, Option.any_eq_true] at hlate
  obtain ⟨t, ht, ha, x', hx', hc⟩ := hlate
  rw [h t ht "step_a" x' ha hx'] at hc
  cases hc

end MediaOrchard
