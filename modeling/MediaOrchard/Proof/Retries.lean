/-
  Retries.

  A step may be started while its `retry_count` is at most `max_retries`; a
  recovery from `running` charges a retry, and one from `assigned` does not.

  * `Retry n x`: what a row `x` owes to `n` starts so far;
  * `RowStep.retry`: every transition keeps it;
  * `retries_bounded`: a step is started at most `max_retries + 1` times, and is
    at rest once its retries are used up.
-/
import MediaOrchard.Proof.Steps

namespace MediaOrchard

open Keyed Interleave Prog

variable {app : App} {t : Trans app.controller} {k : String} {db₀ : Db}
  {tr : List (Trans app.controller)} {c : Conf Db HttpError Response Request}

/-- The transition moves step `k` from assigned to running. -/
def begins (t : Trans app.controller) (k : String) : Bool :=
  (rowBefore t k).any (·.status = .assigned) && (rowAfter t k).any (·.status = .running)

/-- The row after `n` starts: a step that can still be started has a retry for
    each of them, and one that runs for each but the last. -/
structure Retry (n : ℤ) (x : Step) : Prop where
  waiting : x.status = .pending ∨ x.status = .queued ∨ x.status = .assigned →
    n ≤ x.retryCount ∧ x.retryCount ≤ x.maxRetries
  running : x.status = .running → n ≤ x.retryCount + 1 ∧ x.retryCount ≤ x.maxRetries
  starts : n ≤ x.maxRetries + 1
  retries : x.retryCount ≤ x.maxRetries + 1

theorem begins_eq {x x' : Step} (hx : rowBefore t k = some x) (hx' : rowAfter t k = some x') :
    begins t k = (decide (x.status = .assigned) && decide (x'.status = .running)) := by
  simp [begins, hx, hx']

theorem begins_of_same (h : rowAfter t k = rowBefore t k) : begins t k = false := by
  unfold begins
  rw [h]
  cases rowBefore t k with
  | none => rfl
  | some x => cases hs : x.status <;> simp [hs]

theorem begins_of_none (h : rowBefore t k = none) : begins t k = false := by
  simp [begins, h]

/-- A write leaves the retries alone; one that starts the step needs a row that
    can still be started. -/
theorem StepWrite.retry {db : Db} {r : Request} {x x' : Step} {n : ℤ} (h : StepWrite db r x x')
    (hn : Retry n x) : x'.retryCount = x.retryCount ∧ x'.maxRetries = x.maxRetries ∧
      Retry (n + if x.status = .assigned ∧ x'.status = .running then 1 else 0) x' := by
  have hstarts := hn.starts
  have hretries := hn.retries
  cases h with
  | assign _ hs =>
    have hw := hn.waiting (Or.inr (Or.inl hs))
    refine ⟨rfl, rfl, ?_⟩
    rw [if_neg (by simp [hs])]
    exact ⟨fun _ => by simpa [Step.assigned] using hw, fun hr => by simp [Step.assigned] at hr,
      by simpa [Step.assigned] using hstarts, hretries⟩
  | claimNext _ hs | claim _ _ hs =>
    have hw := hn.waiting (Or.inr (Or.inr hs))
    refine ⟨rfl, rfl, ?_⟩
    rw [if_neg (by simp [hs])]
    exact ⟨fun _ => by simpa using hw, fun hr => by simp [hs] at hr, by simpa using hstarts, hretries⟩
  | start _ _ hs =>
    have hw := hn.waiting (Or.inr (Or.inr hs))
    refine ⟨rfl, rfl, ?_⟩
    rw [if_pos ⟨hs, rfl⟩]
    refine ⟨by simp, fun _ => ⟨by simpa using hw.1, hw.2⟩, ?_, hretries⟩
    show n + 1 ≤ x.maxRetries + 1
    omega
  | progress _ _ hs =>
    have hw := hn.running hs
    refine ⟨rfl, rfl, ?_⟩
    rw [if_neg (by simp [hs])]
    exact ⟨fun hr => by simp [hs] at hr, fun _ => by simpa using hw, by simpa using hstarts, hretries⟩
  | complete _ _ hs =>
    refine ⟨rfl, rfl, ?_⟩
    rw [if_neg (by simp)]
    exact ⟨by simp, fun hr => by simp at hr, by simpa using hstarts, hretries⟩
  | fail _ _ hs =>
    refine ⟨rfl, rfl, ?_⟩
    rw [if_neg (by simp)]
    exact ⟨by simp, fun hr => by simp at hr, by simpa using hstarts, hretries⟩

/-- **A recovery from `assigned` is free, one from `running` is charged**; the
    step fails when its retries are used up. -/
theorem Step.recovered_retry {x : Step} (hs : x.status = .assigned ∨ x.status = .running) :
    x.recovered.maxRetries = x.maxRetries ∧
      (x.status = .assigned → x.recovered.retryCount = x.retryCount ∧
        x.recovered.status = .queued) ∧
      (x.status = .running → x.recovered.retryCount = x.retryCount + 1 ∧
        x.recovered.status = if x.retryCount + 1 ≤ x.maxRetries then .queued else .failed) := by
  unfold Step.recovered
  rcases hs with hs | hs
  · simp [hs]
  · simp [hs]

theorem Retry.recovered {n : ℤ} {x : Step} (h : Retry n x)
    (hs : x.status = .assigned ∨ x.status = .running) : Retry n x.recovered := by
  obtain ⟨hmax, hassigned, hrunning⟩ := Step.recovered_retry hs
  have hstarts := h.starts
  have hretries := h.retries
  rcases hs with hs | hs
  · obtain ⟨hcount, hstatus⟩ := hassigned hs
    have hw := h.waiting (Or.inr (Or.inr hs))
    refine ⟨fun _ => ?_, fun hr => ?_, ?_, ?_⟩
    · rw [hcount, hmax]
      exact hw
    · rw [hstatus] at hr
      cases hr
    · rw [hmax]
      exact hstarts
    · rw [hcount, hmax]
      exact hretries
  · obtain ⟨hcount, hstatus⟩ := hrunning hs
    have hr := h.running hs
    refine ⟨fun hopen => ?_, fun hrun => ?_, ?_, ?_⟩
    · rw [hcount, hmax]
      split_ifs at hstatus with hleft
      · exact ⟨hr.1, hleft⟩
      · simp [hstatus] at hopen
    · rw [hstatus] at hrun
      split_ifs at hrun
    · rw [hmax]
      exact hstarts
    · rw [hcount, hmax]
      omega

/-- A step as it is created. -/
theorem Retry.initial {x : Step} (hc : x.retryCount = 0) (hm : 0 ≤ x.maxRetries) : Retry 0 x := by
  refine ⟨fun _ => ?_, fun _ => ?_, ?_, ?_⟩ <;> omega

/-! ## Runs -/

/-- **A transition keeps what the row owes to its starts.** -/
theorem RowStep.retry {n : ℤ} (h : RowStep t k) (hn : ∀ x, rowBefore t k = some x → Retry n x)
    (h0 : rowBefore t k = none → n = 0) :
    ∀ x, rowAfter t k = some x → Retry (n + if begins t k then 1 else 0) x := by
  intro y hy
  cases h with
  | same h hr =>
    rw [begins_of_same h]
    simpa using hn y (h ▸ hy)
  | @write i r x x' hby hx hx' hw =>
    cases hy.symm.trans hx'
    obtain ⟨-, -, hretry⟩ := hw.retry (hn x hx)
    rw [begins_eq hx hx']
    simpa using hretry
  | @recover x hact hx hs hx' =>
    cases hy.symm.trans hx'
    have hb : begins t k = false := by
      rw [begins_eq hx hx']
      rcases hs with hs | hs
      · simp [((Step.recovered_retry (Or.inl hs)).2.1 hs).2]
      · simp [hs]
    rw [hb]
    simpa using (hn x hx).recovered hs
  | create hby hc hx hx' =>
    cases hy.symm.trans hx'
    rw [begins_of_none hx, h0 hx]
    exact Retry.initial rfl (show (0 : ℤ) ≤ 2 by decide)

/-- What a transition does to the retries of a row. -/
theorem RowStep.retryCount (h : RowStep t k) {x : Step} (hx : rowBefore t k = some x) :
    ∃ x', rowAfter t k = some x' ∧ x'.maxRetries = x.maxRetries ∧
      x.retryCount ≤ x'.retryCount ∧
      (recovers t k → x' = x.recovered ∧ (x.status = .assigned ∨ x.status = .running)) := by
  cases h with
  | same h hr => exact ⟨x, h.trans hx, rfl, le_rfl, fun hrec => by rw [hr] at hrec; cases hrec⟩
  | @write i r y y' hby hy hy' hw =>
    cases hx.symm.trans hy
    refine ⟨y', hy', ?_, ?_, fun hrec => by rw [recovers_of_by hby] at hrec; cases hrec⟩
    · cases hw <;> rfl
    · cases hw <;> exact le_rfl
  | @recover y hact hy hs hy' =>
    cases hx.symm.trans hy
    obtain ⟨hmax, hassigned, hrunning⟩ := Step.recovered_retry hs
    refine ⟨_, hy', hmax, ?_, fun _ => ⟨rfl, hs⟩⟩
    rcases hs with hs | hs
    · rw [(hassigned hs).1]
    · rw [(hrunning hs).1]
      omega
  | create hby hc hnone => rw [hnone] at hx; cases hx

/-- The starts of a step and its row. -/
theorem App.Run.retry (h₀ : ∀ x, db₀.steps.get? k = some x → x.retryCount = 0 ∧ 0 ≤ x.maxRetries)
    (h : app.Run db₀ tr c) :
    (c.db.steps.get? k = none → (tr.countP (begins · k) : ℤ) = 0) ∧
      ∀ x, c.db.steps.get? k = some x → Retry (tr.countP (begins · k)) x := by
  refine h.row_inv (P := fun tr o => (o = none → (tr.countP (begins · k) : ℤ) = 0) ∧
    ∀ x, o = some x → Retry (tr.countP (begins · k)) x) ?_ fun tr t ht ih => ?_
  · exact ⟨fun _ => rfl, fun x hx => Retry.initial (h₀ x hx).1 (h₀ x hx).2⟩
  · have hcount : ((t :: tr).countP (begins · k) : ℤ) =
        tr.countP (begins · k) + if begins t k then 1 else 0 := by
      rw [List.countP_cons]
      push_cast
      rfl
    rw [hcount]
    refine ⟨fun hnone => ?_, ht.retry ih.2 ih.1⟩
    -- a step that does not exist did not exist before
    have hpre : rowBefore t k = none := by
      cases hx : rowBefore t k with
      | none => rfl
      | some x =>
        obtain ⟨x', hx', -⟩ := ht.retryCount hx
        cases hnone.symm.trans hx'
    rw [begins_of_none hpre, ih.1 hpre]
    rfl

/-- A step that a recovery left failed stays as it is. -/
theorem App.Run.failed_stays (h : app.Run db₀ tr c) (k : String) :
    ∀ t ∈ tr, ∀ x, recovers t k → rowAfter t k = some x → x.status = .failed →
      c.db.steps.get? k = some x := by
  refine h.row_inv (P := fun tr o => ∀ t ∈ tr, ∀ x, recovers t k → rowAfter t k = some x →
    x.status = .failed → o = some x) (fun t ht => absurd ht List.not_mem_nil)
    fun tr t hs ih t' ht' x hrec hx hfail => ?_
  rcases List.mem_cons.1 ht' with rfl | ht'
  · exact hx
  · have hpre := ih t' ht' x hrec hx hfail
    cases hs with
    | same h => exact h.trans hpre
    | write _ hy _ hw =>
      cases hpre.symm.trans hy
      exact absurd hfail hw.open.2
    | recover _ hy hs =>
      cases hpre.symm.trans hy
      rcases hs with hs | hs <;> rw [hs] at hfail <;> cases hfail
    | create _ _ hnone => rw [hnone] at hpre; cases hpre

/-- **Retries are bounded.**  A step created with no retries used is started at
    most `max_retries + 1` times and uses at most that many retries; no
    transition lowers them, a recovery of an assigned step uses none, one of a
    running step uses one; and a step that a recovery left failed, because its
    retries are used up, never changes again. -/
theorem retries_bounded
    (h₀ : ∀ x, db₀.steps.get? k = some x → x.retryCount = 0 ∧ 0 ≤ x.maxRetries)
    (h : app.Run db₀ tr c) :
    (∀ x, c.db.steps.get? k = some x → (tr.countP (begins · k) : ℤ) ≤ x.maxRetries + 1 ∧
      x.retryCount ≤ x.maxRetries + 1) ∧
    (∀ t ∈ tr, ∀ x, rowBefore t k = some x → ∃ x', rowAfter t k = some x' ∧
      x'.maxRetries = x.maxRetries ∧ x.retryCount ≤ x'.retryCount ∧
      (recovers t k → x.status = .assigned →
        x'.retryCount = x.retryCount ∧ x'.status = .queued) ∧
      (recovers t k → x.status = .running → x'.retryCount = x.retryCount + 1 ∧
        x'.status = if x.retryCount + 1 ≤ x.maxRetries then .queued else .failed)) ∧
    ∀ t ∈ tr, ∀ x, recovers t k → rowAfter t k = some x → x.status = .failed →
      c.db.steps.get? k = some x := by
  refine ⟨fun x hx => ?_, fun t ht x hx => ?_, h.failed_stays k⟩
  · have hretry := (h.retry h₀).2 x hx
    exact ⟨hretry.starts, hretry.retries⟩
  · obtain ⟨x', hx', hmax, hle, hrec⟩ := (h.rowStep ht k).retryCount hx
    refine ⟨x', hx', hmax, hle, fun hr hs => ?_, fun hr hs => ?_⟩
    · obtain ⟨rfl, -⟩ := hrec hr
      exact (Step.recovered_retry (Or.inl hs)).2.1 hs
    · obtain ⟨rfl, -⟩ := hrec hr
      exact (Step.recovered_retry (Or.inr hs)).2.2 hs

/-- `step_a` is started, recovered while it runs, assigned and started again. -/
def sampleRetried : List (Act Request String) :=
  oneByOne 5 [sampleRequest 5 (.heartbeatNode "mac" sampleHeartbeat),
      sampleRequest 6 (.startStep "step_a" ⟨3⟩)] ++ .env "step_a" ::
    oneByOne 0 (sampleAssigned ++ [sampleRequest 3 (.claimNext ⟨"mac"⟩),
      sampleRequest 4 (.startStep "step_a" ⟨1⟩)])

/-- Two starts, within the default of two retries. -/
theorem retries_bounded_sample :
    (sampleRun sampleRetried).1.countP (begins · "step_a") = 2 ∧
      ∀ x, (sampleRun sampleRetried).2.db.steps.get? "step_a" = some x →
        ((sampleRun sampleRetried).1.countP (begins · "step_a") : ℤ) ≤ x.maxRetries + 1 := by
  have h₀ : ∀ x, Db.empty.steps.get? "step_a" = some x → x.retryCount = 0 ∧ 0 ≤ x.maxRetries := by
    intro x hx
    cases hx
  refine ⟨by decide +kernel, fun x hx => ?_⟩
  exact ((retries_bounded h₀ (sampleRun_run sampleRetried)).1 x hx).1

end MediaOrchard
