/-
  Reading a list page by page while the Controller is at work.

  `GET /nodes` and `GET /jobs` answer with a page of the rows, without an order of their
  own.  Rows are added at the end and never removed, so the ids that a client has read
  stay the first ones.

  * `Listing`: the two lists, with their requests and their answers;
  * `Paging`: a client that asks, again and again, for what comes after the rows it has;
  * `App.Run.moment`: the rows only grow up to a moment of a run, and from it on;
  * `App.Run.page`: an answered page is one of the list at the moment its handler read it;
  * `paging_complete`: no row twice, none left out.
-/
import MediaOrchard.Proof.Records

namespace MediaOrchard

open Keyed Interleave Prog

/-- The lists that can be read. -/
inductive Listing where
  | nodes
  | jobs
  deriving DecidableEq, Repr

namespace Listing

def call : Listing → ℤ → ℤ → Call
  | nodes, limit, offset => .listNodes limit offset
  | jobs, limit, offset => .listJobs limit offset

/-- The answer with a page of the rows. -/
def response : Listing → ℤ → ℤ → Db → Response
  | nodes, limit, offset, db => .nodes (page limit offset db.nodes.rows)
  | jobs, limit, offset, db => .jobs (page limit offset db.jobs.rows)

/-- The ids of the rows in an answer. -/
def answer : Listing → Response → Option (List String)
  | nodes, .nodes ns => some (ns.map Node.id)
  | jobs, .jobs js => some (js.map Job.id)
  | _, _ => none

/-- The ids of the rows, in the order of the table. -/
def ids : Listing → Db → List String
  | nodes, db => db.nodes.rows.map Node.id
  | jobs, db => db.jobs.rows.map Job.id

theorem nodup_ids (list : Listing) (db : Db) : (list.ids db).Nodup := by
  cases list with
  | nodes => exact db.nodes.nodup
  | jobs => exact db.jobs.nodup

theorem ids_grows (list : Listing) {db db' : Db} (h : db.Grows db') : list.ids db <+: list.ids db' := by
  cases list with
  | nodes => exact h.nodes.keys
  | jobs => exact h.jobs.keys

end Listing

/-- A client asks for one page after another, each time for what comes after the rows it
    has; in the run `tr` to `c` it has read the rows with these ids. -/
inductive Paging (app : App) (db₀ : Db) (list : Listing) (limit : ℤ) :
    List (Trans app.controller) → Conf Db HttpError Response Request → List String → Prop
  | start {tr c} : app.Run db₀ tr c → Paging app db₀ list limit tr c []
  | next {tr c ids tr' c' i r resp ids'} : Paging app db₀ list limit tr c ids →
      app.controller.Run c tr' c' → c.procs.length ≤ i → r.call = list.call limit ids.length →
      c'.procs[i]? = some (r, Service.done (.ok resp)) → list.answer resp = some ids' →
      Paging app db₀ list limit (tr' ++ tr) c' (ids ++ ids')

theorem map_page {α β : Type} (f : α → β) (limit offset : ℤ) (rows : List α) :
    (page limit offset rows).map f = page limit offset (rows.map f) := by
  unfold page
  split_ifs <;> simp [List.map_drop, List.map_take]

variable {app : App} {list : Listing} {limit offset : ℤ} {r : Request} {resp : Response}

theorem Listing.answer_response (list : Listing) (limit offset : ℤ) (db : Db) :
    list.answer (list.response limit offset db) = some (page limit offset (list.ids db)) := by
  cases list <;> exact congrArg some (map_page ..)

/-- A list is answered with what it was when it was read. -/
theorem handle_page (app : App) (list : Listing) (limit offset : ℤ) (resp : Response)
    (r : Request) : Before (fun _ => True) (fun db _ => resp = list.response limit offset db)
      (fun o => r.call = list.call limit offset → o ≠ .ok resp) (app.handle r) := by
  by_cases hr : r.call = list.call limit offset
  · refine Before.seq _ (fun e _ h => nomatch h) fun _ => ?_
    simp only [hr]
    cases list <;> refine Before.bind (Before.read fun db _ => ?_)
    · by_cases he : resp = .nodes (page limit offset db.nodes.rows)
      exacts [Or.inl he, Or.inr fun _ h => he (Except.ok.inj h).symm]
    · by_cases he : resp = .jobs (page limit offset db.jobs.rows)
      exacts [Or.inl he, Or.inr fun _ h => he (Except.ok.inj h).symm]
  · exact Before.of_forall (fun o h => absurd h hr) _

variable {db₀ : Db} {tr tr' : List (Trans app.controller)}
  {c c' : Conf Db HttpError Response Request} {i : ℕ} {ids ids' : List String}

/-- The database grows along a run that goes on. -/
theorem App.Run.grows_on (h : app.Run db₀ tr c) (h' : app.controller.Run c tr' c') :
    c.db.Grows c'.db := by
  induction h' with
  | init => exact .refl _
  | step h' a ih =>
    exact ih.trans (App.Run.grows_step ((Service.Run.append h h').step a) List.mem_cons_self)

/-- The moments of a run that goes on. -/
theorem App.Run.moment (h : app.Run db₀ tr c) (h' : app.controller.Run c tr' c')
    {t : Trans app.controller} (ht : t ∈ tr') :
    c.db.Grows t.pre.db ∧ t.pre.db.Grows t.post.db ∧ t.post.db.Grows c'.db := by
  obtain ⟨hstep, hrest⟩ := (App.Run.grows (Service.Run.append h h')).2 t (List.mem_append_left _ ht)
  obtain ⟨tr₂, tr₁, rfl⟩ := List.append_of_mem ht
  exact ⟨h.grows_on (h'.split rfl), hstep, hrest⟩

/-- A handler that was not there yet acts later. -/
theorem App.Run.since (h : app.Run db₀ tr c) (hi : c.procs.length ≤ i)
    {t : Trans app.controller} (ht : t ∈ tr' ++ tr) (hby : t.By i r) : t ∈ tr' := by
  refine (List.mem_append.1 ht).resolve_right fun ht => ?_
  obtain ⟨p, hp⟩ := Service.Run.handler_stays h ht hby
  exact absurd (List.getElem?_eq_some_iff.1 hp).1 (by omega)

/-- **An answered page** is one of the list at the moment at which its handler read it. -/
theorem App.Run.page (h : app.Run db₀ tr c) (h' : app.controller.Run c tr' c')
    (hi : c.procs.length ≤ i) (hr : r.call = list.call limit offset)
    (hresp : c'.procs[i]? = some (r, Service.done (.ok resp))) :
    ∃ t ∈ tr', t.By i r ∧ resp = list.response limit offset t.pre.db := by
  rcases Service.Run.before (handle_page app list limit offset resp) (Service.Run.append h h')
    (fun _ _ => trivial) i r _ hresp with ⟨t, ht, hby, hpage⟩ | hnot
  · exact ⟨t, h.since hi ht hby, hby, hpage⟩
  · exact absurd rfl (hnot hr)

theorem Paging.run (h : Paging app db₀ list limit tr c ids) : app.Run db₀ tr c := by
  induction h with
  | start h => exact h
  | next _ h' _ _ _ _ ih => exact Service.Run.append ih h'

/-- What comes after the first rows. -/
theorem append_page (limit : ℤ) {rows later : List String} (hids : ids <+: rows)
    (hrows : rows <+: later) :
    ids ++ page limit ids.length later <+: later ∧
      (limit < 0 ∨ ((page limit ids.length later).length : ℤ) < limit →
        ids ++ page limit ids.length later = later) := by
  unfold page
  rw [Int.toNat_natCast]
  split_ifs with hneg
  · have hall : ids ++ later.drop ids.length = later :=
      (List.prefix_iff_eq_append.1 (hids.trans hrows))
    exact ⟨by rw [hall], fun _ => hall⟩
  · have hpage := prefix_page hrows hids.length_le limit.toNat
    rw [← List.prefix_iff_eq_take.1 hids] at hpage
    rw [hpage]
    refine ⟨List.take_prefix .., fun hshort => List.take_of_length_le ?_⟩
    rw [List.length_take, List.length_drop] at hshort
    omega

/-- One more page. -/
theorem App.Run.next_page (h : app.Run db₀ tr c) (hids : ids <+: list.ids c.db)
    (h' : app.controller.Run c tr' c') (hi : c.procs.length ≤ i)
    (hr : r.call = list.call limit ids.length)
    (hresp : c'.procs[i]? = some (r, Service.done (.ok resp))) (hpage : list.answer resp = some ids') :
    ids ++ ids' <+: list.ids c'.db ∧
      (limit < 0 ∨ (ids'.length : ℤ) < limit → list.ids c.db <+: ids ++ ids') := by
  obtain ⟨t, ht, -, rfl⟩ := h.page h' hi hr hresp
  obtain rfl := Option.some.inj (hpage.symm.trans (list.answer_response ..))
  obtain ⟨hbefore, hstep, hafter⟩ := h.moment h' ht
  obtain ⟨hpre, hall⟩ := append_page limit hids (list.ids_grows hbefore)
  refine ⟨hpre.trans (list.ids_grows (hstep.trans hafter)), fun hshort => ?_⟩
  rw [hall hshort]
  exact list.ids_grows hbefore

/-- **Paging is complete.**  The rows that a client has read page by page, whatever has been
    done meanwhile, are the first ones of the list, none twice and none left out; and after a
    further page that is not full, it has all the rows there were when it asked for it. -/
theorem paging_complete (h : Paging app db₀ list limit tr c ids) :
    ids <+: list.ids c.db ∧ ids.Nodup ∧
      ∀ tr' c' (i : ℕ) r resp ids', app.controller.Run c tr' c' → c.procs.length ≤ i →
        r.call = list.call limit ids.length →
        c'.procs[i]? = some (r, Service.done (.ok resp)) → list.answer resp = some ids' →
        (limit < 0 ∨ (ids'.length : ℤ) < limit) → list.ids c.db <+: ids ++ ids' := by
  have hpre : ids <+: list.ids c.db := by
    induction h with
    | start => exact List.nil_prefix
    | next h h' hi hr hresp hpage ih => exact (h.run.next_page ih h' hi hr hresp hpage).1
  refine ⟨hpre, (list.nodup_ids c.db).sublist hpre.sublist, ?_⟩
  intro tr' c' i r resp ids' h' hi hr hresp hpage
  exact (h.run.next_page hpre h' hi hr hresp hpage).2

/-! ## A sample client -/

/-- Requests handled one after another. -/
theorem serve_run (c : Conf Db HttpError Response Request) (rs : List Request) :
    ∃ tr c', sampleApp.controller.Run c tr c' ∧ c'.db = sampleServe c.db rs ∧
      c.procs.length ≤ c'.procs.length := by
  induction rs generalizing c with
  | nil => exact ⟨[], c, .init, rfl, le_rfl⟩
  | cons r rs ih =>
    obtain ⟨tr, c₁, hrun, hdb, hprocs⟩ := Service.run_exec (S := sampleApp.controller) c r
    obtain ⟨tr', c', hrun', hdb', hlen⟩ := ih c₁
    refine ⟨tr' ++ tr, c', hrun.append hrun', by rw [hdb', hdb]; rfl, ?_⟩
    rw [hprocs, List.length_append] at hlen
    omega

/-- A page, asked for when the requests `rs` have been handled. -/
theorem serve_page (c : Conf Db HttpError Response Request) (rs : List Request) (r : Request)
    (list : Listing) (ids : List String)
    (hanswer : ((sampleApp.handle r).exec (sampleServe c.db rs)).1.toOption.bind list.answer =
      some ids) : ∃ tr c' i resp, sampleApp.controller.Run c tr c' ∧ c.procs.length ≤ i ∧
        c'.procs[i]? = some (r, Service.done (.ok resp)) ∧ list.answer resp = some ids ∧
        c'.db = sampleServe c.db (rs ++ [r]) := by
  obtain ⟨tr, c₁, hrun, hdb, hlen⟩ := serve_run c rs
  obtain ⟨tr', c', hrun', hdb', hprocs⟩ := Service.run_exec (S := sampleApp.controller) c₁ r
  rw [← hdb] at hanswer
  obtain ⟨resp, hresp, hids⟩ := Option.bind_eq_some_iff.1 hanswer
  have hok : ((sampleApp.handle r).exec c₁.db).1 = .ok resp := by
    generalize Prod.fst _ = o at hresp ⊢
    cases o with
    | error => cases hresp
    | ok resp' => exact congrArg Except.ok (Option.some.inj hresp)
  refine ⟨tr' ++ tr, c', c₁.procs.length, resp, hrun.append hrun', hlen, ?_, hids, ?_⟩
  · rw [hprocs, List.getElem?_append_right le_rfl, Nat.sub_self, ← hok]
    rfl
  · rw [hdb', hdb, sampleServe, sampleServe, List.foldl_append]
    rfl

/-- A second job, created at second `now`. -/
def sampleOrder (now : ℤ) : Request :=
  let r := sampleRequest now (.createJob
    { goalType := "video_to_subtitle", inputFile := "/media/in.mp4", outputs := ["srt"] })
  { r with ambient := { r.ambient with jobHex := "b", planHex := "b", stepHex := "b" } }

/-- A client that reads the jobs one by one.  The second job is created after the first
    page, and the third page is empty. -/
theorem paging_complete_sample : ∃ tr₁ c₁ tr₂ c₂,
    Paging sampleApp Db.empty .jobs 1 tr₁ c₁ ["job_a"] ∧ Listing.jobs.ids c₁.db = ["job_a"] ∧
      Paging sampleApp Db.empty .jobs 1 tr₂ c₂ ["job_a", "job_b"] ∧
        ["job_a", "job_b"] <+: Listing.jobs.ids c₂.db ∧
        Listing.jobs.ids c₂.db <+: ["job_a", "job_b"] := by
  have hstart : Paging sampleApp Db.empty .jobs 1 _ _ [] :=
    .start (sampleRun_run (oneByOne 0 sampleAssigned))
  obtain ⟨tr₁, c₁, i₁, resp₁, hrun₁, hi₁, hproc₁, hids₁, hdb₁⟩ :=
    serve_page (sampleRun (oneByOne 0 sampleAssigned)).2 [] (sampleRequest 3 (.listJobs 1 0))
      .jobs ["job_a"] (by decide +kernel)
  have hfirst := hstart.next hrun₁ hi₁ rfl hproc₁ hids₁
  obtain ⟨tr₂, c₂, i₂, resp₂, hrun₂, hi₂, hproc₂, hids₂, hdb₂⟩ :=
    serve_page c₁ [sampleOrder 4] (sampleRequest 5 (.listJobs 1 1)) .jobs ["job_b"]
      (by rw [hdb₁]; decide +kernel)
  have hsecond := hfirst.next hrun₂ hi₂ rfl hproc₂ hids₂
  obtain ⟨tr₃, c₃, i₃, resp₃, hrun₃, hi₃, hproc₃, hids₃, -⟩ :=
    serve_page c₂ [] (sampleRequest 6 (.listJobs 1 2)) .jobs [] (by rw [hdb₂, hdb₁]; decide +kernel)
  obtain ⟨hpre, -, hlast⟩ := paging_complete hsecond
  exact ⟨_, c₁, _, c₂, hfirst, by rw [hdb₁]; decide +kernel, hsecond, hpre,
    hlast tr₃ c₃ i₃ _ resp₃ [] hrun₃ hi₃ rfl hproc₃ hids₃ (Or.inr (by decide))⟩

end MediaOrchard
