/-
  Attempts at one step under different epochs.

  * `Attempt.Rival`: two attempts at one step under different epochs, and
    `Attempt.meet`, the first file that both write;
  * `Overtakes`: a move by which an attempt writes that file after its rival has;
  * `Site.Accounted`: the attempts are the invocations of the processes, each with its
    result, so one attempt for a step and an epoch;
  * `Site.Apart`: no rivals have both written the file where they meet; then
    different attempts write different files (`Site.Apart.alone`);
  * `Site.Kept`: a file stays as the attempt that has written it left it;
  * `attempts_separate`: when attempts under different epochs stay apart.
-/
import MediaOrchard.Proof.Isolation

namespace MediaOrchard

open Keyed Interleave Posix Effects

variable {app : App} {P : Plant} {root : ResolvedPath} {a b : Attempt}

/-! ## Rivals -/

/-- The attempt executes in real mode. -/
def Attempt.isReal (a : Attempt) : Bool := a.config.executionMode = "real"

/-- The attempts are at one step, under different epochs. -/
def Attempt.Rival (a b : Attempt) : Prop :=
  ∃ k e e', claimOf a.step = some (k, e) ∧ claimOf b.step = some (k, e') ∧ e ≠ e'

/-- The first file that the attempt has in common with another at its step. -/
def Attempt.meet (root : ResolvedPath) (a b : Attempt) : ResolvedPath :=
  (firstShared a.isReal b.isReal).parts root a.jobId

/-- In the move an attempt goes on to write the first file that it has in common with
    a rival, and the rival has written it. -/
def Overtakes (root : ResolvedPath) (m : Site app × Site app) : Prop :=
  ∃ (i : ℕ) (a : Attempt), ∃ b ∈ m.1.attempts, ∃ o k, m.1.attempts[i]? = some a ∧
    m.2.attempts[i]? ≠ some a ∧ a.prog = .op o k ∧
    (∃ p, o.target = some p ∧ a.host.real p = a.meet root b) ∧ a.Rival b ∧
    b.Wrote (a.meet root b)

theorem Attempt.Rival.symm (h : a.Rival b) : b.Rival a := by
  obtain ⟨k, e, e', ha, hb, hne⟩ := h
  exact ⟨k, e', e, hb, ha, hne.symm⟩

theorem Attempt.Rival.irrefl (h : a.Rival b) (hs : a.step = b.step) : False := by
  obtain ⟨k, e, e', ha, hb, hne⟩ := h
  rw [hs, hb] at ha
  cases ha
  exact hne rfl

theorem Attempt.meet_comm (h : a.jobId = b.jobId) : a.meet root b = b.meet root a := by
  unfold Attempt.meet
  rw [h, firstShared_comm]

theorem Attempt.wrote_cons {c : FileCall} {prog : FileProg Dict} {q : ResolvedPath} :
    Attempt.Wrote { a with prog := prog, log := c :: a.log } q ↔ c.Writes a.host q ∨ a.Wrote q :=
  List.exists_mem_cons_iff _ c a.log

/-- **An attempt that has not reached the file where it meets another** writes none of
    the other's files. -/
theorem Attempt.Faithful.disjoint (ha : a.Faithful P root) (hb : b.Faithful P root)
    (hP : P.Rooted root) (hT : P.Tidy) (hm : ¬ a.Wrote (a.meet root b))
    {q : ResolvedPath} (hwa : a.Wrote q) : ¬ b.Wrote q := by
  intro hwb
  rcases (runClaimedPipelineStep_until hP.clean ha.works b.isReal).trail ha.trail with
    ⟨c, hc, p, hp, hlead⟩ | ⟨-, hearly⟩
  · exact hm ⟨c, hc, Or.inl ⟨p, hp, ha.real hP hlead (firstShared_mem a.config b.isReal)⟩⟩
  · obtain ⟨c, hc, hw⟩ := hwa
    obtain ⟨p, hp, rfl⟩ := ha.target hT hc hw
    obtain ⟨pl, hpl, hlead⟩ := hearly c hc p hp
    obtain ⟨pl', hpl', he⟩ := hb.wrote hP hT hwb
    rw [ha.real hP hlead (earlyFiles_mem a.config b.isReal pl hpl)] at he
    obtain ⟨rfl, -⟩ := Place.parts_inj he
    refine earlyFiles_own _ _ pl hpl ?_
    rw [WorkerRuntimeConfig.files] at hpl'
    simpa [Attempt.isReal] using hpl'

/-! ## Attempts and invocations -/

/-- A process of the system. -/
abbrev WorkerProcess := Process HttpRequest (Option Response) Dict Dict String

/-- The attempts are the invocations of the processes, one for each process; what a
    process has seen returned is what its attempt has ended with. -/
structure Site.Accounted (s : Site app) : Prop where
  invoked : ∀ a ∈ s.attempts, ∃ p, s.world.procs[a.client]? = some p ∧ .invoked a.step ∈ p.log
  distinct : (s.attempts.map Attempt.client).Nodup
  returned : ∀ p ∈ s.world.procs, ∀ step o, .returned step o ∈ p.log →
    ∃ a ∈ s.attempts, a.step = step ∧ a.outcome? = some o

/-- The processes of `w'` have started and ended the same runs as those of `w`. -/
structure SameRuns (w w' : World app.system) : Prop where
  invoked : ∀ (i : ℕ) p, w.procs[i]? = some p → ∃ p', w'.procs[i]? = some p' ∧
    ∀ step, .invoked step ∈ p.log → .invoked step ∈ p'.log
  returned : ∀ p' ∈ w'.procs, ∀ step o, .returned step o ∈ p'.log →
    ∃ p ∈ w.procs, .returned step o ∈ p.log

theorem SameRuns.of_eq {w w' : World app.system} (h : w'.procs = w.procs) : SameRuns w w' :=
  ⟨fun _ p hp => ⟨p, h ▸ hp, fun _ hs => hs⟩, fun p hp _ _ ho => ⟨p, h ▸ hp, ho⟩⟩

/-- A process that gets an answer, or posts a message. -/
theorem SameRuns.of_set {w w' : World app.system} {c : ℕ} {p p' : WorkerProcess}
    (hp : w.procs[c]? = some p) (h : w'.procs = w.procs.set c p')
    (hl : p'.log = p.log ∨ ∃ m b a, p'.log = .answered m b a :: p.log) : SameRuns w w' := by
  have hlt : c < w.procs.length := (List.getElem?_eq_some_iff.1 hp).1
  have hinv : ∀ step, .invoked step ∈ p'.log ↔ .invoked step ∈ p.log := by
    intro step
    rcases hl with hl | ⟨m, b, a, hl⟩ <;> simp [hl]
  have hret : ∀ step o, .returned step o ∈ p'.log ↔ .returned step o ∈ p.log := by
    intro step o
    rcases hl with hl | ⟨m, b, a, hl⟩ <;> simp [hl]
  constructor
  · intro i q hq
    rw [h]
    by_cases hi : c = i
    · subst hi
      cases hp.symm.trans hq
      exact ⟨p', List.getElem?_set_self hlt, fun step hs => (hinv step).2 hs⟩
    · exact ⟨q, (List.getElem?_set_ne hi).trans hq, fun _ hs => hs⟩
  · intro q hq step o ho
    rw [h] at hq
    rcases List.mem_or_eq_of_mem_set hq with hq | rfl
    · exact ⟨q, hq, ho⟩
    · exact ⟨p, List.mem_of_getElem? hp, (hret step o).1 ho⟩

/-- A move that goes with no attempt starts and ends no run. -/
theorem Plant.Free.sameRuns {w : World app.system} {m : SysMove} (hm : P.Free m) :
    SameRuns w (w.step m) := by
  cases m with
  | service a =>
    refine .of_eq ?_
    dsimp only [World.step]
    split_ifs <;> rfl
  | deliver m env =>
    refine .of_eq ?_
    dsimp only [World.step]
    split <;> rfl
  | invoke | finish => exact absurd hm id
  | spawn x =>
    constructor
    · intro i p hp
      exact ⟨p, World.getElem?_concat hp, fun _ hs => hs⟩
    · intro p hp step o ho
      rcases List.mem_append.1 hp with hp | hp
      · exact ⟨p, hp, ho⟩
      · rw [List.mem_singleton.1 hp] at ho
        cases ho
  | post c =>
    dsimp only [World.step]
    split
    · rename_i hp
      exact .of_set hp rfl (Or.inl rfl)
    · exact .of_eq rfl
  | receive c =>
    dsimp only [World.step]
    split
    · rename_i hp
      split
      · exact .of_set hp rfl (Or.inr ⟨_, _, _, rfl⟩)
      · exact .of_eq rfl
    · exact .of_eq rfl
  | lose c e =>
    dsimp only [World.step]
    split
    · rename_i hp
      exact .of_set hp rfl (Or.inr ⟨_, _, _, rfl⟩)
    · exact .of_eq rfl

variable {db₀ : Db} {s s' : Site app}

theorem invoke_procs {w : World app.system} {c : ℕ} {step : Dict}
    {k : Except String Dict → WorkerProg Unit} {log}
    (hp : w.procs[c]? = some ⟨.run step k, .idle, log⟩) :
    (w.step (.invoke c)).procs = w.procs.set c ⟨.run step k, .busy, .invoked step :: log⟩ := by
  dsimp only [World.step]
  rw [hp]

theorem finish_procs {w : World app.system} {c : ℕ} {step : Dict} {o : Except String Dict}
    {k : Except String Dict → WorkerProg Unit} {log}
    (hp : w.procs[c]? = some ⟨.run step k, .busy, log⟩) :
    (w.step (.finish c o)).procs = w.procs.set c ⟨k o, .idle, .returned step o :: log⟩ := by
  dsimp only [World.step]
  rw [hp]

/-- A process that is about to run its step has run nothing. -/
theorem Site.Inv.unused (h : Site.Inv P db₀ s) {c : ℕ} {step : Dict}
    {k : Except String Dict → WorkerProg Unit} {log}
    (hp : s.world.procs[c]? = some ⟨.run step k, .idle, log⟩) : ∀ j, .invoked j ∉ log := by
  obtain ⟨x, hx⟩ := h.reach.inv.reached c _ hp
  obtain ⟨-, hfollows⟩ := hx.obeys (executeClaimedStep_follows x.1 x.2)
  exact hfollows.1.2

/-- The step that an attempt runs names a step and an epoch. -/
theorem Site.Inv.claim (h : Site.Inv P db₀ s) (hA : s.Accounted) (ha : a ∈ s.attempts) :
    ∃ k e, claimOf a.step = some (k, e) := by
  obtain ⟨p, hp, hin⟩ := hA.invoked a ha
  have hobeys : Obeys MayCall Accepted p.log :=
    (obeys_of_inv h.reach.inv hp).imp (fun _ _ h => h) fun _ _ h => h.1
  obtain ⟨k, e, -, -, -, hclaim, -⟩ := hobeys.invoked (fun ev _ _ h => h.cons ev) hin
  exact ⟨k, e, hclaim⟩

/-- An attempt that performs an operation keeps its client. -/
theorem map_client_set {l : List Attempt} {i : ℕ} (ha : l[i]? = some a) (hb : b.client = a.client) :
    (l.set i b).map Attempt.client = l.map Attempt.client := by
  obtain ⟨hlt, rfl⟩ := List.getElem?_eq_some_iff.1 ha
  have hlt' : i < (l.map Attempt.client).length := by rwa [List.length_map]
  have hclient : (l.map Attempt.client)[i] = l[i].client := List.getElem_map _
  rw [List.map_set, hb, ← hclient, List.set_getElem_self]

/-- **One move of a site** keeps the accounts. -/
theorem Site.Accounted.next (hA : s.Accounted) (h : Site.Inv P db₀ s) (hn : Site.Next P s s') :
    s'.Accounted := by
  cases hn with
  | world m hm =>
    refine ⟨fun a ha => ?_, hA.distinct, fun p hp step o ho => ?_⟩
    · obtain ⟨p, hp, hin⟩ := hA.invoked a ha
      obtain ⟨p', hp', hin'⟩ := hm.sameRuns.invoked _ p hp
      exact ⟨p', hp', hin' _ hin⟩
    · obtain ⟨p₀, hp₀, ho₀⟩ := hm.sameRuns.returned p hp step o ho
      exact hA.returned p₀ hp₀ step o ho₀
  | @invoke c step k log x config host hp hx hc hh =>
    have hlt : c < s.world.procs.length := (List.getElem?_eq_some_iff.1 hp).1
    refine ⟨fun a ha => ?_, ?_, fun p hp' step' o ho => ?_⟩
    · show ∃ p, (s.world.step (.invoke c)).procs[a.client]? = some p ∧ _
      rw [invoke_procs hp]
      rcases List.mem_append.1 ha with ha | ha
      · obtain ⟨p, hpa, hin⟩ := hA.invoked a ha
        by_cases hac : c = a.client
        · rw [← hac] at hpa ⊢
          cases hp.symm.trans hpa
          exact ⟨_, List.getElem?_set_self hlt, List.mem_cons_of_mem _ hin⟩
        · exact ⟨p, (List.getElem?_set_ne hac).trans hpa, hin⟩
      · obtain rfl := List.mem_singleton.1 ha
        exact ⟨_, List.getElem?_set_self hlt, List.mem_cons_self⟩
    · rw [List.map_append, List.nodup_append]
      refine ⟨hA.distinct, List.nodup_singleton _, ?_⟩
      intro i hi j hj hij
      obtain ⟨a, ha, rfl⟩ := List.mem_map.1 hi
      obtain rfl := List.mem_singleton.1 hj
      obtain ⟨p, hpa, hin⟩ := hA.invoked a ha
      rw [hij] at hpa
      cases hp.symm.trans hpa
      exact h.unused hp _ hin
    · rw [invoke_procs hp] at hp'
      obtain ⟨a, ha, hrest⟩ : ∃ a ∈ s.attempts, a.step = step' ∧ a.outcome? = some o := by
        rcases List.mem_or_eq_of_mem_set hp' with hp' | rfl
        · exact hA.returned p hp' step' o ho
        · have hold : .returned step' o ∈ log := by simpa using ho
          exact hA.returned _ (List.mem_of_getElem? hp) step' o hold
      exact ⟨a, List.mem_append_left _ ha, hrest⟩
  | @op i a o k r d ha hp hs =>
    refine ⟨fun b hb => ?_, ?_, fun p hp' step o' ho => ?_⟩
    · rcases List.mem_or_eq_of_mem_set hb with hb | rfl
      exacts [hA.invoked b hb, hA.invoked a (List.mem_of_getElem? ha)]
    · have hset := map_client_set (b := { a with prog := k r, log := ⟨o, r, s.disk, d⟩ :: a.log })
        ha rfl
      rw [hset]
      exact hA.distinct
    · obtain ⟨b, hb, hstep, hout⟩ := hA.returned p hp' step o' ho
      refine ⟨b, ?_, hstep, hout⟩
      obtain ⟨j, hj⟩ := List.getElem?_of_mem hb
      have hij : i ≠ j := by
        rintro rfl
        cases ha.symm.trans hj
        rw [Attempt.outcome?, hp] at hout
        cases hout
      exact List.mem_of_getElem? ((List.getElem?_set_ne hij).trans hj)
  | @finish a o k log ha ho hp =>
    have hlt : a.client < s.world.procs.length := (List.getElem?_eq_some_iff.1 hp).1
    refine ⟨fun b hb => ?_, hA.distinct, fun p hp' step o' ho' => ?_⟩
    · show ∃ p, (s.world.step (.finish a.client o)).procs[b.client]? = some p ∧ _
      rw [finish_procs hp]
      obtain ⟨p, hpb, hin⟩ := hA.invoked b hb
      by_cases hab : a.client = b.client
      · rw [← hab] at hpb ⊢
        cases hp.symm.trans hpb
        exact ⟨_, List.getElem?_set_self hlt, List.mem_cons_of_mem _ hin⟩
      · exact ⟨p, (List.getElem?_set_ne hab).trans hpb, hin⟩
    · rw [finish_procs hp] at hp'
      rcases List.mem_or_eq_of_mem_set hp' with hp' | rfl
      · exact hA.returned p hp' step o' ho'
      · rcases List.mem_cons.1 ho' with he | hold
        · cases he
          exact ⟨a, ha, rfl, ho⟩
        · exact hA.returned _ (List.mem_of_getElem? hp) step o' hold
  | foreign hd => exact ⟨hA.invoked, hA.distinct, hA.returned⟩

/-- **One attempt for a step and an epoch.** -/
theorem Site.Inv.attempt_unique (h : Site.Inv P db₀ s) (hA : s.Accounted) (ha : a ∈ s.attempts)
    (hb : b ∈ s.attempts) {k : String} {e : ℤ} (hka : claimOf a.step = some (k, e))
    (hkb : claimOf b.step = some (k, e)) : a = b := by
  have hne : ∀ {a : Attempt} {p : WorkerProcess}, claimOf a.step = some (k, e) →
      .invoked a.step ∈ p.log → p.invocations (claims k e) ≠ [] := by
    intro a p hk hin
    refine List.ne_nil_of_mem (a := a.step) (List.mem_filterMap.2 ⟨_, hin, ?_⟩)
    exact if_pos (decide_eq_true hk)
  obtain ⟨p, hp, hin⟩ := hA.invoked a ha
  obtain ⟨p', hp', hin'⟩ := hA.invoked b hb
  have hclient := invocation_unique h.reach.inv hp hp' (hne hka hin) (hne hkb hin')
  exact List.inj_on_of_nodup_map hA.distinct ha hb hclient

/-- The row of an attempt is the row of the step that it claims. -/
theorem Step.Carried.claim {x : Step} {k : String} {e : ℤ} {step : Dict} (hc : x.Carried step)
    (hk : claimOf step = some (k, e)) : x.id = k := by
  have hid : requiredStepStr step "id" = .ok k := (claimOf_eq_some.1 hk).1
  unfold requiredStepStr at hid
  rw [hc.id] at hid
  dsimp only at hid
  split_ifs at hid
  exact Except.ok.inj hid

/-- Attempts at one step work for one job. -/
theorem Site.Inv.jobId_of_claim (h : Site.Inv P db₀ s) (ha : a ∈ s.attempts) (hb : b ∈ s.attempts)
    {k : String} {e e' : ℤ} (hka : claimOf a.step = some (k, e))
    (hkb : claimOf b.step = some (k, e')) : a.jobId = b.jobId := by
  obtain ⟨-, n, x, hx, hc⟩ := h.attempt a ha
  obtain ⟨-, n', y, hy, hc'⟩ := h.attempt b hb
  obtain rfl : n = n' := by
    rw [← Table.key_of_get? hx, ← Table.key_of_get? hy]
    exact (hc.claim hka).trans (hc'.claim hkb).symm
  cases hx.symm.trans hy
  exact (h.jobId_eq hx hc).trans (h.jobId_eq hx hc').symm

/-- Different attempts for one job are rivals: they are at its one step. -/
theorem Site.Inv.rival (h : Site.Inv P db₀ s) (hA : s.Accounted) (ha : a ∈ s.attempts)
    (hb : b ∈ s.attempts) (hne : a ≠ b) (hJ : a.jobId = b.jobId) : a.Rival b := by
  obtain ⟨-, n, x, hx, hc⟩ := h.attempt a ha
  obtain ⟨-, n', y, hy, hc'⟩ := h.attempt b hb
  obtain ⟨k, e, hk⟩ := h.claim hA ha
  obtain ⟨k', e', hk'⟩ := h.claim hA hb
  have hxy : x.jobId = y.jobId :=
    (h.jobId_eq hx hc).symm.trans (hJ.trans (h.jobId_eq hy hc'))
  obtain rfl := h.planning.sole n n' x y hx hy hxy
  cases hx.symm.trans hy
  obtain rfl := (hc.claim hk).symm.trans (hc'.claim hk')
  refine ⟨_, e, e', hk, hk', fun he => hne ?_⟩
  exact h.attempt_unique hA ha hb hk (he ▸ hk')

/-! ## Apart -/

/-- No rivals have both written the file where they meet. -/
def Site.Apart (root : ResolvedPath) (s : Site app) : Prop :=
  ∀ a ∈ s.attempts, ∀ b ∈ s.attempts, a.Rival b →
    a.Wrote (a.meet root b) → ¬ b.Wrote (a.meet root b)

theorem Site.Inv.meet_comm (h : Site.Inv P db₀ s) (ha : a ∈ s.attempts) (hb : b ∈ s.attempts)
    (hr : a.Rival b) : a.meet root b = b.meet root a := by
  obtain ⟨k, e, e', hka, hkb, -⟩ := hr
  exact Attempt.meet_comm (h.jobId_of_claim ha hb hka hkb)

/-- **Rivals that are apart** write different files. -/
theorem Site.Apart.disjoint (hs : s.Apart app.sharedRoot) (h : Site.Inv P db₀ s)
    (hP : P.Rooted app.sharedRoot) (hT : P.Tidy) (ha : a ∈ s.attempts) (hb : b ∈ s.attempts)
    (hr : a.Rival b) {q : ResolvedPath} (hwa : a.Wrote q) : ¬ b.Wrote q := by
  intro hwb
  have hfa := (h.attempt a ha).1
  have hfb := (h.attempt b hb).1
  by_cases hm : a.Wrote (a.meet app.sharedRoot b)
  · have hm' := hs a ha b hb hr hm
    rw [h.meet_comm ha hb hr] at hm'
    exact hfb.disjoint hfa hP hT hm' hwb hwa
  · exact hfa.disjoint hfb hP hT hm hwa hwb

/-- **Different attempts write different files**, if rivals are apart. -/
theorem Site.Apart.alone (hs : s.Apart app.sharedRoot) (h : Site.Inv P db₀ s) (hA : s.Accounted)
    (hP : P.Rooted app.sharedRoot) (hT : P.Tidy) (ha : a ∈ s.attempts) (hb : b ∈ s.attempts)
    (hne : a ≠ b) {q : ResolvedPath} (hwa : a.Wrote q) : ¬ b.Wrote q := by
  by_cases hJ : a.jobId = b.jobId
  · exact hs.disjoint h hP hT ha hb (h.rival hA ha hb hne hJ) hwa
  · intro hwb
    obtain ⟨pl, -, rfl⟩ := (h.attempt a ha).1.wrote hP hT hwa
    obtain ⟨pl', -, he⟩ := (h.attempt b hb).1.wrote hP hT hwb
    exact hJ (Place.parts_inj he).2

/-- The attempt that moves does not meet a rival, if it does not overtake. -/
theorem Site.Apart.op (hs : s.Apart app.sharedRoot) (h : Site.Inv P db₀ s) (hT : P.Tidy) {i : ℕ}
    (ha : s.attempts[i]? = some a) {o : FileOp} {k : o.Ans → FileProg Dict} {r : o.Ans} {d : Disk}
    (hp : a.prog = .op o k) (hstep : o.Step a.host (P.command a.host) s.disk r d)
    (ho : ¬ Overtakes app.sharedRoot (s, ⟨s.world, d,
      s.attempts.set i { a with prog := k r, log := ⟨o, r, s.disk, d⟩ :: a.log }⟩))
    (hb : b ∈ s.attempts) (hr : a.Rival b) (hwb : b.Wrote (a.meet app.sharedRoot b)) :
    ¬ Attempt.Wrote { a with prog := k r, log := ⟨o, r, s.disk, d⟩ :: a.log }
      (a.meet app.sharedRoot b) := by
  have hmem := List.mem_of_getElem? ha
  intro hwa
  rcases Attempt.wrote_cons.1 hwa with hw | hw
  · refine ho ⟨i, a, b, hb, o, k, ha, ?_, hp, ?_, hr, hwb⟩
    · have hlt : i < s.attempts.length := (List.getElem?_eq_some_iff.1 ha).1
      rw [List.getElem?_set_self hlt]
      intro he
      have hlog := congrArg (fun a => a.log.length) (Option.some.inj he)
      simp at hlog
    · exact ((h.attempt a hmem).1.op hp hstep).target hT List.mem_cons_self hw
  · exact hs a hmem b hb hr hw hwb

/-- An attempt that has just begun has written nothing. -/
theorem mem_of_wrote {l : List Attempt} {n : Attempt} (hn : n.log = []) (hb : b ∈ l ++ [n])
    {q : ResolvedPath} (hw : b.Wrote q) : b ∈ l := by
  rcases List.mem_append.1 hb with hb | hb
  · exact hb
  · obtain rfl := List.mem_singleton.1 hb
    obtain ⟨c, hc, -⟩ := hw
    rw [hn] at hc
    cases hc

/-- **One move that does not overtake** keeps rivals apart. -/
theorem Site.Apart.next (hs : s.Apart app.sharedRoot) (h : Site.Inv P db₀ s)
    (hT : P.Tidy) (hn : Site.Next P s s') (ho : ¬ Overtakes app.sharedRoot (s, s')) :
    s'.Apart app.sharedRoot := by
  cases hn with
  | world | finish | foreign => exact hs
  | @invoke c step k log x config host hp hx hc hh =>
    intro a ha b hb hr hwa hwb
    exact hs a (mem_of_wrote rfl ha hwa) b (mem_of_wrote rfl hb hwb) hr hwa hwb
  | @op i a o k r d ha hp hstep =>
    have hmem := List.mem_of_getElem? ha
    intro x hx y hy hr hwx hwy
    rcases List.mem_or_eq_of_mem_set hx with hx | rfl <;>
      rcases List.mem_or_eq_of_mem_set hy with hy | rfl
    · exact hs x hx y hy hr hwx hwy
    · have hcomm : x.meet app.sharedRoot a = a.meet app.sharedRoot x := h.meet_comm hx hmem hr
      have hwx' : x.Wrote (a.meet app.sharedRoot x) := hcomm ▸ hwx
      exact hs.op h hT ha hp hstep ho hx hr.symm hwx' (hcomm ▸ hwy)
    · exact hs.op h hT ha hp hstep ho hy hr hwy hwx
    · exact hr.irrefl rfl

/-! ## Files as they were left -/

/-- Others leave the directories of the jobs alone. -/
def Plant.Quiet (P : Plant) (root : ResolvedPath) : Prop :=
  ∀ d d', P.foreign d d' → ∀ dir ∈ ["output", "work"], ∀ q, root ++ [dir] <+: q →
    d'.entry q = d.entry q

/-- The last of the calls that writes `q` leaves `x` there. -/
def LeftBy (h : Host) (q : ResolvedPath) : List FileCall → Option Entry → Prop
  | [], _ => False
  | c :: cs, x => (c.Writes h q ∧ c.post.entry q = x) ∨ (¬ c.Writes h q ∧ LeftBy h q cs x)

/-- The attempt has left `x` at the file `q`. -/
def Attempt.Left (a : Attempt) (q : ResolvedPath) (x : Option Entry) : Prop :=
  LeftBy a.host q a.log x

theorem LeftBy.unique {h : Host} {q : ResolvedPath} {cs : List FileCall} {x y : Option Entry}
    (hx : LeftBy h q cs x) (hy : LeftBy h q cs y) : x = y := by
  induction cs with
  | nil => exact absurd hx id
  | cons c cs ih =>
    rcases hx with ⟨hw, rfl⟩ | ⟨hw, hx⟩ <;> rcases hy with ⟨hw', rfl⟩ | ⟨hw', hy⟩
    exacts [rfl, absurd hw hw', absurd hw' hw, ih hx hy]

/-- On the disk `d` the file `q` is as the attempt has left it; where it has left
    nothing a directory may be. -/
def Attempt.Keeps (a : Attempt) (d : Disk) (q : ResolvedPath) : Prop :=
  ∃ x, a.Left q x ∧ (d.entry q = x ∨ (x = none ∧ d.entry q = some .dir))

/-- What an attempt has written is as it has left it. -/
def Site.Kept (s : Site app) : Prop := ∀ a ∈ s.attempts, ∀ q, a.Wrote q → a.Keeps s.disk q

/-- A call that does not write the file. -/
theorem Attempt.Keeps.call {c : FileCall} {h : Host} {q : ResolvedPath} (hk : a.Keeps c.pre q)
    (hw : ¬ c.Writes h q) : a.Keeps c.post q := by
  obtain ⟨x, hx, hd⟩ := hk
  refine ⟨x, hx, ?_⟩
  by_cases he : c.post.entry q = c.pre.entry q
  · rw [he]
    exact hd
  · have hdir : c.pre.entry q = none ∧ c.post.entry q = some .dir := by
      by_contra hdir
      exact hw (Or.inr ⟨he, hdir⟩)
    rcases hd with hd | ⟨-, hd⟩
    · exact Or.inr ⟨hd.symm.trans hdir.1, hdir.2⟩
    · rw [hdir.1] at hd
      cases hd

/-- **The attempt that performs an operation** keeps its files. -/
theorem Attempt.Keeps.own {c : FileCall} {prog : FileProg Dict} {q : ResolvedPath}
    (hk : a.Wrote q → a.Keeps c.pre q)
    (hw : Attempt.Wrote { a with prog := prog, log := c :: a.log } q) :
    Attempt.Keeps { a with prog := prog, log := c :: a.log } c.post q := by
  by_cases hc : c.Writes a.host q
  · exact ⟨c.post.entry q, Or.inl ⟨hc, rfl⟩, Or.inl rfl⟩
  · obtain ⟨x, hx, hd⟩ := (hk ((Attempt.wrote_cons.1 hw).resolve_left hc)).call hc
    exact ⟨x, Or.inr ⟨hc, hx⟩, hd⟩

/-- **One move of a site**, after which rivals are apart, keeps the files. -/
theorem Site.Kept.next (hk : s.Kept) (h : Site.Inv P db₀ s) (h' : Site.Inv P db₀ s')
    (hA' : s'.Accounted) (hs' : s'.Apart app.sharedRoot) (hP : P.Rooted app.sharedRoot)
    (hT : P.Tidy) (hQ : P.Quiet app.sharedRoot) (hn : Site.Next P s s') : s'.Kept := by
  cases hn with
  | world | finish => exact hk
  | invoke => exact fun a ha q hw => hk a (mem_of_wrote rfl ha hw) q hw
  | @op i a o k r d ha hp hstep =>
    have hmem := List.mem_of_getElem? ha
    have hself : Attempt.mk a.client a.step a.config a.host (k r) (⟨o, r, s.disk, d⟩ :: a.log) ∈
        s.attempts.set i { a with prog := k r, log := ⟨o, r, s.disk, d⟩ :: a.log } :=
      List.mem_set (List.getElem?_eq_some_iff.1 ha).1 _
    intro b hb q hw
    by_cases hba : b = { a with prog := k r, log := ⟨o, r, s.disk, d⟩ :: a.log }
    · subst hba
      exact Attempt.Keeps.own (c := ⟨o, r, s.disk, d⟩) (hk a hmem q) hw
    · have hb' := (List.mem_or_eq_of_mem_set hb).resolve_right hba
      have hnot := hs'.alone h' hA' hP hT hb hself hba hw
      exact (hk b hb' q hw).call (c := ⟨o, r, s.disk, d⟩) fun hc =>
        hnot (Attempt.wrote_cons.2 (Or.inl hc))
  | foreign hd =>
    intro a ha q hw
    obtain ⟨x, hx, he⟩ := hk a ha q hw
    obtain ⟨pl, hpl, rfl⟩ := (h.attempt a ha).1.wrote hP hT hw
    obtain ⟨dir, hdir, c, rest, hbelow⟩ := Place.below a.config hpl a.jobId
    have hpre : app.sharedRoot ++ [dir] <+: pl.parts app.sharedRoot a.jobId :=
      ⟨a.jobId :: c :: rest, by rw [hbelow]; simp⟩
    refine ⟨x, hx, ?_⟩
    rw [hQ _ _ hd dir hdir _ hpre]
    exact he

/-! ## Runs -/

variable {disk : Disk} {moves : List (Site app × Site app)}

theorem Site.Run.accounted (hP : P.Rooted app.sharedRoot)
    (h₀ : db₀.jobs.rows = [] ∧ db₀.steps.rows = [])
    (hr : Site.Run P (.init app db₀ disk) moves s) : s.Accounted := by
  induction hr with
  | init => exact ⟨by simp [Site.init], List.nodup_nil, by simp [Site.init, World.init]⟩
  | step hr hn ih => exact ih.next (hr.inv hP h₀) hn

/-- **A run in which no move overtakes** keeps rivals apart, and files as left. -/
theorem Site.Run.apart (hP : P.Rooted app.sharedRoot) (hT : P.Tidy) (hQ : P.Quiet app.sharedRoot)
    (h₀ : db₀.jobs.rows = [] ∧ db₀.steps.rows = [])
    (hr : Site.Run P (.init app db₀ disk) moves s)
    (ho : ∀ m ∈ moves, ¬ Overtakes app.sharedRoot m) : s.Apart app.sharedRoot ∧ s.Kept := by
  induction hr with
  | init => exact ⟨by simp [Site.Apart, Site.init], by simp [Site.Kept, Site.init]⟩
  | @step tr s s' hr hn ih =>
    obtain ⟨hs, hk⟩ := ih fun m hm => ho m (List.mem_cons_of_mem _ hm)
    have hinv := hr.inv hP h₀
    have hr' := hr.step hn
    have hs' := hs.next hinv hT hn (ho _ List.mem_cons_self)
    exact ⟨hs', hk.next hinv (hr'.inv hP h₀) (hr'.accounted hP h₀) hs' hP hT hQ hn⟩

/-- The artifacts of a completed step: the attempt under the epoch of the row has
    returned its output, and its files are as it has left them. -/
def Site.Published (s : Site app) : Prop :=
  ∀ x ∈ s.db.steps.rows, x.status = .completed → ∃ a ∈ s.attempts,
    claimOf a.step = some (x.id, x.assignmentEpoch) ∧
    (∃ outputJson, a.outcome? = some (.ok outputJson) ∧ x.outputJson = some outputJson) ∧
    ∀ q, a.Wrote q → ∀ data, s.disk.entry q = some (.file data) ↔ a.Left q (some (.file data))

theorem Attempt.Keeps.file {d : Disk} {q : ResolvedPath} {data : String} (hk : a.Keeps d q) :
    d.entry q = some (.file data) ↔ a.Left q (some (.file data)) := by
  obtain ⟨x, hx, hd⟩ := hk
  constructor
  · intro hfile
    rcases hd with hd | ⟨-, hd⟩
    · rw [← hfile, hd]
      exact hx
    · cases hfile.symm.trans hd
  · intro hleft
    cases hx.unique hleft
    rcases hd with hd | ⟨hd, -⟩
    · exact hd
    · cases hd

/-- A completed step has an attempt that returned its output. -/
theorem Site.Kept.published (hk : s.Kept) (h : Site.Inv P db₀ s) (hA : s.Accounted)
    (h₀ : db₀.Initial) : s.Published := by
  intro x hx hstatus
  obtain ⟨d, hd, -, hout⟩ := result_of_completed h₀ h.reach.inv (Table.get?_of_mem hx) hstatus
  obtain ⟨p, hp, hmem⟩ := List.mem_flatMap.1 hd
  obtain ⟨ev, hev, hres⟩ := List.mem_filterMap.1 hmem
  cases ev with
  | answered | invoked => cases hres
  | returned step o =>
    simp only [Option.ite_none_right_eq_some, Option.some.injEq] at hres
    obtain ⟨hclaims, rfl⟩ := hres
    obtain ⟨a, ha, rfl, houtcome⟩ := hA.returned p hp _ _ hev
    exact ⟨a, ha, claims_eq hclaims, ⟨d, houtcome, hout⟩, fun q hw data => (hk a ha q hw).file⟩

/-- The attempt later in a run. -/
structure Attempt.Grown (a a' : Attempt) : Prop where
  step : a'.step = a.step
  host : a'.host = a.host
  log : a.log ⊆ a'.log

theorem Attempt.Grown.wrote {a' : Attempt} (h : a.Grown a') {q : ResolvedPath} (hw : a.Wrote q) :
    a'.Wrote q := by
  obtain ⟨c, hc, hw⟩ := hw
  exact ⟨c, h.log hc, h.host ▸ hw⟩

theorem Site.Next.grown (hn : Site.Next P s s') {i : ℕ} (ha : s.attempts[i]? = some a) :
    ∃ a', s'.attempts[i]? = some a' ∧ a.Grown a' := by
  have hrefl : a.Grown a := ⟨rfl, rfl, fun _ h => h⟩
  cases hn with
  | world | finish | foreign => exact ⟨a, ha, hrefl⟩
  | invoke => exact ⟨a, World.getElem?_concat ha, hrefl⟩
  | @op j b o k r d hb hp hs =>
    by_cases hij : j = i
    · subst hij
      cases ha.symm.trans hb
      exact ⟨_, List.getElem?_set_self (List.getElem?_eq_some_iff.1 ha).1, rfl, rfl,
        fun _ h => List.mem_cons_of_mem _ h⟩
    · exact ⟨a, (List.getElem?_set_ne hij).trans ha, hrefl⟩

/-- Rivals have written the same file. -/
def Site.Clash (s : Site app) : Prop :=
  ∃ a ∈ s.attempts, ∃ b ∈ s.attempts, a.Rival b ∧ ∃ q, a.Wrote q ∧ b.Wrote q

theorem Site.Clash.next (h : s.Clash) (hn : Site.Next P s s') : s'.Clash := by
  obtain ⟨a, ha, b, hb, ⟨k, e, e', hka, hkb, hne⟩, q, hwa, hwb⟩ := h
  obtain ⟨i, hi⟩ := List.getElem?_of_mem ha
  obtain ⟨j, hj⟩ := List.getElem?_of_mem hb
  obtain ⟨a', ha', hga⟩ := hn.grown hi
  obtain ⟨b', hb', hgb⟩ := hn.grown hj
  exact ⟨a', List.mem_of_getElem? ha', b', List.mem_of_getElem? hb',
    ⟨k, e, e', hga.step ▸ hka, hgb.step ▸ hkb, hne⟩, q, hga.wrote hwa, hgb.wrote hwb⟩

/-- **A move that overtakes** makes rivals clash. -/
theorem Overtakes.clash (ho : Overtakes root (s, s')) (hn : Site.Next P s s') : s'.Clash := by
  obtain ⟨i, a, b, hb, o, k, ha, hmoved, hp, ⟨p, hptarget, hreal⟩, ⟨n, e, e', hka, hkb, hne⟩, hwb⟩ :=
    ho
  obtain ⟨j, hj⟩ := List.getElem?_of_mem hb
  obtain ⟨b', hb', hgb⟩ := hn.grown hj
  have hrival : ∀ a' : Attempt, a'.step = a.step → a'.Rival b' := fun a' hs =>
    ⟨n, e, e', hs ▸ hka, hgb.step ▸ hkb, hne⟩
  cases hn with
  | world | finish | foreign => exact absurd ha hmoved
  | invoke => exact absurd (World.getElem?_concat ha) hmoved
  | @op i' a' o' k' r d ha' hp' hs =>
    by_cases hi : i' = i
    · subst hi
      cases ha.symm.trans ha'
      cases hp.symm.trans hp'
      refine ⟨_, List.mem_of_getElem?
        (List.getElem?_set_self (List.getElem?_eq_some_iff.1 ha).1), b',
        List.mem_of_getElem? hb', hrival _ rfl, a.meet root b, ?_, hgb.wrote hwb⟩
      exact Attempt.wrote_cons.2 (Or.inl (Or.inl ⟨p, hptarget, hreal⟩))
    · exact absurd ((List.getElem?_set_ne hi).trans ha) hmoved

theorem Site.Run.clash {s₀ : Site app} (hr : Site.Run P s₀ moves s)
    (ho : ∃ m ∈ moves, Overtakes root m) : s.Clash := by
  induction hr with
  | init => simp at ho
  | step hr hn ih =>
    obtain ⟨m, hm, ho⟩ := ho
    rcases List.mem_cons.1 hm with rfl | hm
    · exact ho.clash hn
    · exact (ih ⟨m, hm, ho⟩).next hn

/-- **Attempts under different epochs write different files, and the artifacts of the
    attempt that is accepted are what it has left**, in a run of a site in which others
    leave the directories of the jobs alone, if and only if no move overtakes. -/
theorem attempts_separate (hP : P.Rooted app.sharedRoot) (hT : P.Tidy)
    (hQ : P.Quiet app.sharedRoot) (h₀ : db₀.jobs.rows = [] ∧ db₀.steps.rows = [])
    (hr : Site.Run P (.init app db₀ disk) moves s) :
    ((∀ a ∈ s.attempts, ∀ b ∈ s.attempts, a.Rival b → ∀ q, a.Wrote q → ¬ b.Wrote q) ∧
      s.Published) ↔ ∀ m ∈ moves, ¬ Overtakes app.sharedRoot m := by
  have hinv := hr.inv hP h₀
  constructor
  · rintro ⟨hdisjoint, -⟩ m hm ho
    obtain ⟨a, ha, b, hb, hrival, q, hwa, hwb⟩ := hr.clash ⟨m, hm, ho⟩
    exact hdisjoint a ha b hb hrival q hwa hwb
  · intro ho
    obtain ⟨hapart, hkept⟩ := hr.apart hP hT hQ h₀ ho
    have hinitial : db₀.Initial := by
      constructor <;> simp [h₀.1, h₀.2]
    refine ⟨fun a ha b hb hrival q => hapart.disjoint hinv hP hT ha hb hrival, ?_⟩
    exact hkept.published hinv (hr.accounted hP h₀) hinitial

theorem samplePlant_quiet : samplePlant.Quiet sampleApp.sharedRoot := fun _ _ h => absurd h id

/-- `step_a` is recovered, assigned under epoch 3, and started by another process. -/
def secondMoves : List SysMove :=
  .service (.env "step_a") ::
  serveMoves 3 (siteRequest "" 4 (.heartbeatNode "mac" sampleHeartbeat)) ++
  .spawn (sampleWorker, sampleClaim "a" 3) :: sendMoves 1 1 4 5

theorem secondMoves_free : ∀ m ∈ secondMoves, samplePlant.Free m := by
  intro m hm
  simp only [secondMoves, List.mem_append, List.mem_cons] at hm
  rcases hm with (rfl | hm) | rfl | hm
  exacts [trivial, serveMoves_free m hm, trivial, sendMoves_free m hm]

/-- The system once `step_a` has been started under epoch 3. -/
def supersededWorld : World sampleApp.system := (firstWorld.step (.invoke 0)).after secondMoves

set_option maxRecDepth 20000 in
theorem supersededWorld_ready : nextRun supersededWorld 1 = some (sampleClaim "a" 3) ∧
    runnerRow "a" ∈ runnerRows supersededWorld := ⟨rfl, List.mem_cons_self⟩

theorem sampleClaim_rival {a b : Attempt} (ha : a.step = sampleClaim "a" 1)
    (hb : b.step = sampleClaim "a" 3) : a.Rival b :=
  ⟨"step_a", 1, 3, by rw [ha]; rfl, by rw [hb]; rfl, by decide⟩

/-- What the attempt under epoch 3 ends with. -/
def supersededOutcome : Except String Dict :=
  (attemptRun (sampleClaim "a" 3) sampleRootDisk).1.mapError Exn.text

/-- The system once process 1 has reported the end. -/
def reportedWorld : World sampleApp.system :=
  ((supersededWorld.step (.invoke 1)).step (.finish 1 supersededOutcome)).after (sendMoves 1 2 5 6)

theorem reportedWorld_completed : ∃ x ∈ reportedWorld.conf.db.steps.rows,
    x.status = .completed ∧
      claimOf (endedAttempt 1 (sampleClaim "a" 3) sampleRootDisk).step =
        some (x.id, x.assignmentEpoch) := by
  have hrows : reportedWorld.conf.db.steps.rows.map (fun x => (x.id, x.status, x.assignmentEpoch)) =
      [("step_a", .completed, 3)] := by decide +kernel
  obtain ⟨x, hx, hrow⟩ := List.mem_map.1 (hrows ▸ List.mem_singleton_self _)
  obtain ⟨hid, hstatus, hepoch⟩ : x.id = "step_a" ∧ x.status = .completed ∧
      x.assignmentEpoch = 3 := by simpa only [Prod.mk.injEq] using hrow
  refine ⟨x, hx, hstatus, ?_⟩
  rw [hid, hepoch]
  rfl

theorem endedAttempt_outcome (c : ℕ) (step : Dict) (d : FiniteDisk) :
    (endedAttempt c step d).outcome? = some ((attemptRun step d).1.mapError Exn.text) := by
  unfold endedAttempt Attempt.outcome?
  cases (attemptRun step d).1 <;> rfl

/-- Process `c` has run its step to the end, and its run returns. -/
theorem Site.Run.sample_finish {tr : List (Site sampleApp × Site sampleApp)}
    {w : World sampleApp.system} {d' : Disk} {as : List Attempt} {c : ℕ} {step : Dict}
    {d : FiniteDisk} (hr : SiteRun tr ⟨w.step (.invoke c), d', as ++ [endedAttempt c step d]⟩)
    (hp : nextRun w c = some step) :
    ∃ tr', SiteRun tr' ⟨(w.step (.invoke c)).step
      (.finish c ((attemptRun step d).1.mapError Exn.text)), d', as ++ [endedAttempt c step d]⟩ := by
  obtain ⟨k, log, hproc⟩ := nextRun_eq hp
  have hbusy : (w.step (.invoke c)).procs[c]? = some ⟨.run step k, .busy, .invoked step :: log⟩ := by
    rw [invoke_procs hproc]
    exact List.getElem?_set_self (List.getElem?_eq_some_iff.1 hproc).1
  exact ⟨_, hr.step (.finish (a := endedAttempt c step d)
    (List.mem_append_right _ (List.mem_singleton_self _)) (endedAttempt_outcome c step d) hbusy)⟩

/-- The attempt under epoch 1 is superseded before its first operation, and the one under
    epoch 3 runs to its end and reports it. -/
theorem reportedWorld_run : ∃ moves, SiteRun moves
    ⟨reportedWorld, (attemptRun (sampleClaim "a" 3) sampleRootDisk).2.2.toDisk,
      [sampleAttempt 0 (sampleClaim "a" 1), endedAttempt 1 (sampleClaim "a" 3) sampleRootDisk]⟩ := by
  obtain ⟨tr, hr, -⟩ := firstWorld_run
  have hr₁ := (hr.sample_begin firstWorld_ready.1 firstWorld_ready.2).worlds secondMoves_free
  obtain ⟨tr₂, hr₂, -⟩ := hr₁.sample_attempt supersededWorld_ready.1 supersededWorld_ready.2
  obtain ⟨tr₃, hr₃⟩ := hr₂.sample_finish supersededWorld_ready.1
  exact ⟨_, hr₃.worlds (@sendMoves_free 1 2 5 6)⟩

/-- Two attempts at `step_a`, of which the later one is accepted.  No move overtakes. -/
theorem attempts_separate_sample : ∃ moves s, SiteRun moves s ∧
    (∀ m ∈ moves, ¬ Overtakes sampleApp.sharedRoot m) ∧
    ∃ a ∈ s.attempts, ∃ b ∈ s.attempts, a.Rival b ∧ b.Wrote (sampleLog "a") ∧
      ¬ a.Wrote (sampleLog "a") ∧ s.Published ∧
      ∃ x ∈ s.db.steps.rows, x.status = .completed ∧
        claimOf b.step = some (x.id, x.assignmentEpoch) := by
  have hcompleted := reportedWorld_completed
  obtain ⟨moves, hr⟩ := reportedWorld_run
  generalize reportedWorld = w at hcompleted hr
  have hidle : ∀ q, ¬ (sampleAttempt 0 (sampleClaim "a" 1)).Wrote q := by
    rintro q ⟨call, hcall, -⟩
    cases hcall
  have hfree : ∀ m ∈ moves, ¬ Overtakes sampleApp.sharedRoot m := by
    intro m hm ho
    obtain ⟨a, ha, b, hb, hrival, q, hwa, hwb⟩ := hr.clash ⟨m, hm, ho⟩
    simp only [List.mem_cons, List.not_mem_nil, or_false] at ha hb
    rcases ha with rfl | rfl
    · exact hidle q hwa
    · rcases hb with rfl | rfl
      exacts [hidle q hwb, hrival.irrefl rfl]
  have hpublished := ((attempts_separate samplePlant_rooted samplePlant_tidy samplePlant_quiet
    ⟨rfl, rfl⟩ hr).2 hfree).2
  exact ⟨moves, _, hr, hfree, sampleAttempt 0 (sampleClaim "a" 1), List.mem_cons_self,
    endedAttempt 1 (sampleClaim "a" 3) sampleRootDisk, List.mem_cons_of_mem _ List.mem_cons_self,
    sampleClaim_rival rfl rfl, endedAttempt_wrote (by decide +kernel), hidle _, hpublished,
    hcompleted⟩

/-- Both attempts write the first log. -/
theorem attempts_separate_counterexample : ∃ moves s, Site.Run samplePlant
    (.init sampleApp sampleSiteDb sampleRootDisk.toDisk) moves s ∧
      ∃ a ∈ s.attempts, ∃ b ∈ s.attempts, a.Rival b ∧ ∃ q, a.Wrote q ∧ b.Wrote q := by
  obtain ⟨tr, hr, -⟩ := firstWorld_run
  obtain ⟨tr, hr, -⟩ := hr.sample_attempt firstWorld_ready.1 firstWorld_ready.2
  obtain ⟨tr, hr, -⟩ :=
    (hr.worlds secondMoves_free).sample_attempt supersededWorld_ready.1 supersededWorld_ready.2
  refine ⟨_, _, hr, _, List.mem_cons_self, _, List.mem_cons_of_mem _ List.mem_cons_self,
    sampleClaim_rival rfl rfl, sampleLog "a", endedAttempt_wrote (by decide +kernel),
    endedAttempt_wrote (by decide +kernel)⟩

end MediaOrchard
