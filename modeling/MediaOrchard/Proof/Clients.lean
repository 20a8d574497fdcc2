/-
  What the command line shows of a Controller at work.

  * `Listing.command`: `jobs` and `nodes`; `Listing.table`: their lines;
  * `listing_shown`: they show a list as it was while they ran;
  * `submission_listed`: the job that `submit` tells of is new, on record as it was ordered,
    and among the jobs that `jobs` shows later if it is one of the first.
-/
import MediaOrchard.Cli.Clients
import MediaOrchard.Proof.Access
import MediaOrchard.Proof.Doctor
import MediaOrchard.Proof.Paging

namespace MediaOrchard

open Keyed Interleave Effects Cli
open Prog (EndsIn Before)

variable {app : App} {db₀ : Db} {tr : List (Trans app.controller)}
  {c c' : Conf Db HttpError Response Request}
  {cs : List (Effects.Call CliOp CliOp.Answer (Conf Db HttpError Response Request))}

/-! ## The Controller meanwhile -/

theorem desk_runs {o : CliOp} {answer : o.Answer} (h : app.desk o c answer c') :
    ∃ tr, app.controller.Run c tr c' := by
  cases o with
  | request q =>
    obtain ⟨tr, hrun, -⟩ := h
    exact ⟨tr, hrun⟩
  | exist | run | work | serve | echo => exact h

/-- While a command runs, the Controller goes on. -/
theorem ends_desk {α : Type} {p : CliProg α} {out : Except CliExn α}
    (h : Ends app.desk p c cs out c') : ∃ tr, app.controller.Run c tr c' := by
  induction p generalizing c cs with
  | ret | throw =>
    obtain ⟨-, -, rfl⟩ := h
    exact ⟨[], .init⟩
  | op o k ih =>
    obtain ⟨r, c₁, cs, rfl, hstep, h⟩ := h
    obtain ⟨tr₁, hrun₁⟩ := desk_runs hstep
    obtain ⟨tr₂, hrun₂⟩ := ih r h
    exact ⟨_, hrun₁.append hrun₂⟩

/-! ## Requests -/

/-- The request of a client, with its key. -/
theorem ends_clientRequest {key : String} {call : Call} {out : Except CliExn (Option Json)}
    (h : Ends app.desk (clientRequest key call) c cs out c') :
    linesOf cs = [] ∧ lookupsOf cs = [] ∧ ∃ tr, app.controller.Run c tr c' ∧
      ((∃ exc, out = .error (.uncaught exc)) ∨
        ∃ i env o answer, c.procs.length ≤ i ∧
          c'.procs[i]? = some (⟨call, { authorization := some ("Bearer " ++ key) }, env⟩,
            Service.done o) ∧
          Returned o answer ∧ out = answer.mapError .uncaught) := by
  obtain ⟨answer, c₁, cs, rfl, ⟨tr, hrun, hanswer⟩, h⟩ := h
  have hout : cs = [] ∧ c' = c₁ ∧ out = answer.mapError .uncaught := by
    cases answer with
    | ok =>
      obtain ⟨rfl, rfl, rfl⟩ := h
      exact ⟨rfl, rfl, rfl⟩
    | error =>
      obtain ⟨rfl, rfl, rfl⟩ := h
      exact ⟨rfl, rfl, rfl⟩
  obtain ⟨rfl, rfl, rfl⟩ := hout
  refine ⟨rfl, rfl, tr, hrun, ?_⟩
  rcases hanswer with ⟨exc, rfl⟩ | ⟨i, env, o, hi, ho, hreturned⟩
  · exact Or.inl ⟨exc, rfl⟩
  · exact Or.inr ⟨i, env, o, answer, hi, ho, hreturned, rfl⟩

/-- A request that has returned was answered with a row or rows. -/
theorem answered_ok {q : Ambient → Request} {n : ℕ} {v : Option Json}
    (h : (∃ exc, (.ok v : Except CliExn (Option Json)) = .error (.uncaught exc)) ∨
      ∃ i env o answer, n ≤ i ∧ c.procs[i]? = some (q env, Service.done o) ∧
        Returned o answer ∧ (.ok v : Except CliExn (Option Json)) = answer.mapError .uncaught) :
    ∃ i env resp, n ≤ i ∧ c.procs[i]? = some (q env, Service.done (.ok resp)) ∧ resp.Sent v := by
  rcases h with ⟨exc, hexc⟩ | ⟨i, env, o, answer, hi, ho, hreturned, hv⟩
  · cases hexc
  cases o with
  | error e =>
    cases hreturned
    cases hv
  | ok resp =>
    obtain ⟨v', rfl, hsent⟩ := hreturned
    cases hv
    exact ⟨i, env, resp, hi, ho, hsent⟩

/-! ## Lists -/

section
variable (str : Json → String) (env : Environ)

namespace Listing

/-- The command that shows a list. -/
def command : Listing → Option String → CliProg Unit
  | nodes => Cli.nodes str env
  | jobs => Cli.jobs str env

def name : Listing → String
  | nodes => "nodes"
  | jobs => "jobs"

def header : Listing → List String
  | nodes => ["ID", "STATUS", "CPU%", "HOST"]
  | jobs => ["ID", "STATUS", "GOAL", "PRIORITY"]

def columns : Listing → List String
  | nodes => ["id", "status", "cpu_percent", "host"]
  | jobs => ["id", "status", "goal_type", "priority"]

theorem command_eq (list : Listing) (apiKey : Option String) :
    list.command str env apiKey =
      Cli.list str env list.name (list.call 100 0) list.header list.columns apiKey := by
  cases list <;> rfl

/-- The texts of the rows that are shown. -/
def cells : Listing → Db → List (List String)
  | nodes, db => (page 100 0 db.nodes.rows).map fun n =>
    [n.id, n.status.value, str (.float n.cpuPercent), n.host.getD "-"]
  | jobs, db => (page 100 0 db.jobs.rows).map fun j =>
    [j.id, j.status.value, j.goalType, toString j.priority]

/-- The lines that are shown. -/
def table (list : Listing) (db : Db) : List Line :=
  if list.cells str db = [] then [("No " ++ list.name ++ " found.", false)]
  else ("\t".intercalate list.header, false) ::
    (list.cells str db).map fun row => ("\t".intercalate row, false)

end Listing

end

variable {str : Json → String}

theorem jsonObjectList_objects (name : String) (ds : List Dict) :
    jsonObjectList name (some (.arr (ds.map .obj))) = .ok ds := by
  show (ds.map Json.obj).mapM (jsonObject name) = .ok ds
  induction ds with
  | nil => rfl
  | cons d ds ih =>
    rw [List.map_cons, List.mapM_cons, ih]
    rfl

theorem Job.Carried.rowLine {j : Job} {d : Dict} (h : j.Carried d) :
    rowLine str (Listing.columns .jobs) d =
      "\t".intercalate [j.id, j.status.value, j.goalType, toString j.priority] := by
  simp only [Cli.rowLine, Listing.columns, List.map_cons, List.map_nil, h.id, h.status, h.goalType,
    h.priority, display]

theorem Node.Carried.rowLine {n : Node} {d : Dict} (h : n.Carried d) :
    rowLine str (Listing.columns .nodes) d =
      "\t".intercalate [n.id, n.status.value, str (.float n.cpuPercent), n.host.getD "-"] := by
  simp only [Cli.rowLine, Listing.columns, List.map_cons, List.map_nil, h.id, h.status,
    h.cpuPercent, h.host]
  cases n.host <;> rfl

/-- Related items with the same image. -/
theorem map_eq_of_forall₂ {α β γ : Type} {R : α → β → Prop} {f : α → γ} {g : β → γ} {l : List α}
    {l' : List β} (h : List.Forall₂ R l l') (hfg : ∀ a b, R a b → g b = f a) :
    l'.map g = l.map f := by
  induction h with
  | nil => rfl
  | cons hab _ ih => rw [List.map_cons, List.map_cons, hfg _ _ hab, ih]

/-- The rows of an answer, as the command line shows them. -/
theorem sent_rows (str : Json → String) {list : Listing} {db : Db} {v : Option Json}
    (h : (list.response 100 0 db).Sent v) :
    ∃ ds : List Dict, v = some (.arr (ds.map .obj)) ∧
      ds.map (rowLine str list.columns) = (list.cells str db).map ("\t".intercalate ·) := by
  cases list with
  | nodes =>
    obtain ⟨ds, rfl, hds⟩ := h
    refine ⟨ds, rfl, ?_⟩
    rw [Listing.cells, List.map_map]
    exact map_eq_of_forall₂ hds fun n d hn => hn.rowLine
  | jobs =>
    obtain ⟨ds, rfl, hds⟩ := h
    refine ⟨ds, rfl, ?_⟩
    rw [Listing.cells, List.map_map]
    exact map_eq_of_forall₂ hds fun j d hj => hj.rowLine

/-- The lines of the rows. -/
theorem ends_rows {list : Listing} {ds : List Dict} {db : Db} {out : Except CliExn Unit}
    (hrows : ds.map (rowLine str list.columns) = (list.cells str db).map ("\t".intercalate ·))
    (h : Ends app.desk (if ds = [] then echo ("No " ++ list.name ++ " found.") else
      (echo ("\t".intercalate list.header)).bind fun _ =>
        forEach (fun row => echo (rowLine str list.columns row)) ds) c cs out c') :
    linesOf cs = list.table str db ∧ out = .ok () := by
  have hlines : (if ds = [] then echo ("No " ++ list.name ++ " found.") else
      (echo ("\t".intercalate list.header)).bind fun _ =>
        forEach (fun row => echo (rowLine str list.columns row)) ds) =
      echoAll (list.table str db) := by
    have hempty : list.cells str db = [] ↔ ds = [] := by
      rw [← List.map_eq_nil_iff, ← hrows, List.map_eq_nil_iff]
    unfold Listing.table
    by_cases hds : ds = []
    · rw [if_pos hds, if_pos (hempty.2 hds)]
      rfl
    · rw [if_neg hds, if_neg (mt hempty.1 hds)]
      have hline : ∀ row : Dict, echo (rowLine str list.columns row) =
          echoAll [(rowLine str list.columns row, false)] := fun _ => rfl
      rw [forEach_lines hline, ← List.map_eq_flatMap]
      have hmap : ds.map (fun row => (rowLine str list.columns row, false)) =
          (list.cells str db).map fun row => ("\t".intercalate row, false) := by
        have := congrArg (List.map fun line => (line, false)) hrows
        rwa [List.map_map, List.map_map] at this
      rw [hmap]
      rfl
  rw [hlines] at h
  obtain ⟨-, -, hlines, hout⟩ := ends_echoAll h
  exact ⟨hlines, hout⟩

/-- A list that is shown is as it was at a moment of the command; else no line is written. -/
theorem ends_list (h : app.Run db₀ tr c) {list : Listing} {env : Environ} {apiKey : Option String}
    {out : Except CliExn Unit}
    (hends : Ends app.desk (list.command str env apiKey) c cs out c') :
    ((∃ e, out = .error e) ∧ linesOf cs = []) ∨
      (out = .ok () ∧ (∃ key, requireApiKey env apiKey = .ok key ∧ app.Accepts key) ∧
        ∃ tr', app.controller.Run c tr' c' ∧ ∃ t ∈ tr', linesOf cs = list.table str t.pre.db) := by
  rw [list.command_eq, Cli.list] at hends
  cases hkey : requireApiKey env apiKey with
  | error e =>
    rw [hkey] at hends
    obtain ⟨rfl, rfl, -⟩ := hends
    exact Or.inl ⟨⟨e, rfl⟩, rfl⟩
  | ok key =>
    rw [hkey] at hends
    replace hends : Ends app.desk ((clientRequest key (list.call 100 0)).bind _) c cs out c' := hends
    rcases hends.bind with ⟨e, rfl, hrequest⟩ | ⟨v, c₁, cs₁, cs₂, rfl, hrequest, hends⟩
    · exact Or.inl ⟨⟨e, rfl⟩, (ends_clientRequest hrequest).1⟩
    obtain ⟨hsilent, -, tr₁, hrun, hanswer⟩ := ends_clientRequest hrequest
    obtain ⟨i, ambient, resp, hi, hresp, hsent⟩ := answered_ok hanswer
    obtain ⟨t, ht, -, rfl⟩ := h.page hrun hi (show _ = list.call 100 0 from rfl) hresp
    obtain ⟨ds, rfl, hrows⟩ := sent_rows str hsent
    rw [jsonObjectList_objects] at hends
    obtain ⟨tr₂, hrun₂⟩ := ends_desk hends
    obtain ⟨hlines, rfl⟩ := ends_rows hrows hends
    have hall : app.Run db₀ (tr₁ ++ tr) c₁ := Service.Run.append h hrun
    refine Or.inr ⟨rfl, ⟨key, rfl, ?_⟩, _, hrun.append hrun₂, t, List.mem_append_right _ ht, ?_⟩
    · -- the request was not answered with 401
      by_contra hnot
      have hkey : Headers.key { authorization := some ("Bearer " ++ key) } = key :=
        Headers.key_bearer _ rfl
      rw [← hkey] at hnot
      have hdenied := hall.guarded.1 i _ _ hresp
      rw [if_neg hnot] at hdenied
      obtain ⟨e, he, -⟩ := hdenied
      cases he
    · rw [linesOf_append, hsilent, hlines, List.nil_append]

/-- The first cells of the rows that are shown. -/
theorem Listing.shown_ids (list : Listing) (str : Json → String) (db : Db) :
    (list.cells str db).map List.head? = ((list.ids db).take 100).map some := by
  cases list with
  | nodes =>
    rw [Listing.cells, List.map_map]
    show (page 100 0 db.nodes.rows).map (some ∘ Node.id) = _
    rw [← List.map_map, map_page]
    rfl
  | jobs =>
    rw [Listing.cells, List.map_map]
    show (page 100 0 db.jobs.rows).map (some ∘ Job.id) = _
    rw [← List.map_map, map_page]
    rfl

/-- A job as JSON. -/
def Job.json (j : Job) : Dict :=
  [("id", .str j.id), ("status", .str j.status.value), ("goal_type", .str j.goalType),
    ("priority", .int j.priority)]

/-- A node as JSON. -/
def Node.json (n : Node) : Dict :=
  [("id", .str n.id), ("status", .str n.status.value), ("cpu_percent", .float n.cpuPercent),
    ("host", (n.host.map Json.str).getD .null)]

/-- Every list can be sent. -/
theorem Listing.exists_sent (list : Listing) (limit offset : ℤ) (db : Db) :
    ∃ v, (list.response limit offset db).Sent v := by
  cases list with
  | nodes => exact ⟨_, _, rfl, List.forall₂_map_right_iff.2
      (List.forall₂_same.2 fun n _ => (⟨rfl, rfl, rfl, rfl⟩ : n.Carried n.json))⟩
  | jobs => exact ⟨_, _, rfl, List.forall₂_map_right_iff.2
      (List.forall₂_same.2 fun j _ => (⟨rfl, rfl, rfl, rfl⟩ : j.Carried j.json))⟩

/-- A list is answered, if the key is that of the Controller. -/
theorem handle_list_exec (list : Listing) (limit offset : ℤ) {r : Request}
    (hr : r.call = list.call limit offset) (hkey : app.Accepts r.headers.key) (db : Db) :
    (app.handle r).exec db = (.ok (list.response limit offset db), db) := by
  have hauth : requireWorkerAuth app r.headers = .ret () := by
    rcases requireWorkerAuth_accepts app r.headers with ⟨-, hin⟩ | ⟨hnot, -⟩ | ⟨hnot, -⟩
    exacts [hin, absurd hkey hnot, absurd hkey hnot]
  unfold App.handle
  rw [hauth, hr]
  cases list <;> rfl

/-- A request of a command can be handled at once. -/
theorem desk_request (c : Conf Db HttpError Response Request) (q : HttpRequest) (env : Ambient)
    {resp : Response} {v : Option Json}
    (hexec : ((app.handle ⟨q.call, q.headers, env⟩).exec c.db).1 = .ok resp) (hv : resp.Sent v) :
    ∃ c', app.desk (.request q) c (.ok v) c' ∧
      c'.db = ((app.handle ⟨q.call, q.headers, env⟩).exec c.db).2 := by
  obtain ⟨tr, c', hrun, hdb, hprocs⟩ :=
    Service.run_exec (S := app.controller) c ⟨q.call, q.headers, env⟩
  refine ⟨c', ⟨tr, hrun, Or.inr ⟨c.procs.length, env, .ok resp, le_rfl, ?_, v, rfl, hv⟩⟩, hdb⟩
  rw [hprocs, List.getElem?_append_right le_rfl, Nat.sub_self, ← hexec]
  rfl

/-- Every operation of a command can be answered. -/
theorem App.desk_total (app : App) (o : CliOp) (c : Conf Db HttpError Response Request) :
    ∃ answer c', app.desk o c answer c' := by
  cases o with
  | exist => exact ⟨.ok true, c, [], .init⟩
  | run => exact ⟨.error ⟨.osError, ""⟩, c, [], .init⟩
  | request => exact ⟨.error "", c, [], .init, Or.inl ⟨"", rfl⟩⟩
  | work op =>
    have hanswer : Nonempty op.Answer := by cases op <;> exact ⟨.error ""⟩
    exact ⟨hanswer.some, c, [], .init⟩
  | serve => exact ⟨.ok (), c, [], .init⟩
  | echo => exact ⟨(), c, [], .init⟩

/-- **With the key**, a list can be shown. -/
theorem exists_ends_list {list : Listing} {env : Environ} {apiKey : Option String} {key : String}
    (hkey : requireApiKey env apiKey = .ok key) (haccepts : app.Accepts key)
    (c : Conf Db HttpError Response Request) :
    ∃ cs c', Ends app.desk (list.command str env apiKey) c cs (.ok ()) c' := by
  obtain ⟨v, hv⟩ := list.exists_sent 100 0 c.db
  obtain ⟨ds, rfl, hrows⟩ := sent_rows str hv
  -- the request, handled alone
  let q : HttpRequest := ⟨list.call 100 0, { authorization := some ("Bearer " ++ key) }⟩
  have hexec : (app.handle ⟨q.call, q.headers, ⟨fun _ => 0, "", "", "", none, sampleFs⟩⟩).exec c.db =
      (.ok (list.response 100 0 c.db), c.db) :=
    handle_list_exec list 100 0 rfl (by rwa [Headers.key_bearer q.headers rfl]) c.db
  obtain ⟨c₁, hdesk, -⟩ := desk_request c q _ (congrArg Prod.fst hexec) hv
  obtain ⟨cs, out, c', htail⟩ := exists_ends app.desk_total
    (if ds = [] then echo ("No " ++ list.name ++ " found.") else
      (echo ("\t".intercalate list.header)).bind fun _ =>
        forEach (fun row => echo (rowLine str list.columns row)) ds) c₁
  obtain ⟨-, rfl⟩ := ends_rows hrows htail
  refine ⟨⟨.request q, .ok (some (.arr (ds.map .obj))), c, c₁⟩ :: cs, c', ?_⟩
  rw [list.command_eq, Cli.list, hkey]
  refine ⟨_, c₁, cs, rfl, hdesk, ?_⟩
  show Ends app.desk ((Eff.liftExcept (jsonObjectList list.name _)).bind _) ..
  rw [jsonObjectList_objects]
  exact htail

theorem sampleApp_accepts : sampleApp.Accepts "key" := by decide +kernel

theorem sampleApp_shows (c : Conf Db HttpError Response Request) : ∃ cs c',
    Ends sampleApp.desk (Cli.jobs (fun _ => "") (fun _ => none) (some "key")) c cs (.ok ()) c' :=
  @exists_ends_list _ _ .jobs _ _ _ rfl sampleApp_accepts c

/-- The line on a new job. -/
def createdLine (j : Job) : Line := ("Created job " ++ j.id ++ " (" ++ j.status.value ++ ")", false)

/-- An order is answered with a job, if with a row. -/
theorem handle_order (app : App) (r : Request) : EndsIn (fun _ => True)
    (fun o => ∀ body, r.call = .createJob body → ∀ resp, o = .ok resp → ∃ j, resp = .job j)
    (app.handle r) := by
  by_cases hr : ∃ body, r.call = .createJob body
  · obtain ⟨body, hr⟩ := hr
    have herr : ∀ (e : HttpError) body', r.call = .createJob body' → ∀ resp,
        (Except.error e : Except HttpError Response) = .ok resp → ∃ j, resp = .job j :=
      fun e _ _ _ h => nomatch h
    refine Before.seq _ herr fun _ => ?_
    simp only [hr]
    refine Before.seq _ (fun e body' _ _ h => nomatch h) fun j => ?_
    rintro _ _ _ ⟨⟩
    exact ⟨j, rfl⟩
  · exact Before.of_forall (fun o body hbody => absurd ⟨body, hbody⟩ hr) _

/-- The answer to an order. -/
theorem App.Run.order (h : app.Run db₀ tr c) {i : ℕ} {r : Request} {body : JobCreateRequest}
    {resp : Response} (hr : r.call = .createJob body)
    (hresp : c.procs[i]? = some (r, Service.done (.ok resp))) : ∃ j, resp = .job j := by
  rcases Service.Run.before (fun r => handle_order app r) h (fun _ _ => trivial) i r _ hresp with
    ⟨t, -, -, hno⟩ | hjob
  · exact hno.elim
  · exact hjob body hr resp rfl

/-- A submission that succeeds has found the file, and its request was answered with a job. -/
theorem ends_submit (h : app.Run db₀ tr c) {host : Host} {env : Environ} {o : SubmitOptions}
    {out : Except CliExn Unit} (hends : Ends app.desk (Cli.submit host str env o) c cs out c') :
    ((∃ e, out = .error e) ∧ linesOf cs = []) ∨
      (out = .ok () ∧ lookupsOf cs = [(host.expanduser o.inputFile, .ok true)] ∧
        ∃ c₁ tr₁ c₂ tr₂ tr₃ i r j, app.controller.Run c tr₁ c₁ ∧ app.controller.Run c₁ tr₂ c₂ ∧
          app.controller.Run c₂ tr₃ c' ∧ c₁.procs.length ≤ i ∧ r.call = .createJob o.payload ∧
          c₂.procs[i]? = some (r, Service.done (.ok (.job j))) ∧ linesOf cs = [createdLine j]) := by
  obtain ⟨answer, c₁, cs, rfl, ⟨tr₁, hrun₁⟩, hends⟩ := hends
  cases answer with
  | error exn =>
    obtain ⟨rfl, rfl, -⟩ := hends
    exact Or.inl ⟨⟨_, rfl⟩, rfl⟩
  | ok there =>
    cases there with
    | false =>
      obtain ⟨rfl, rfl, -⟩ := hends
      exact Or.inl ⟨⟨_, rfl⟩, rfl⟩
    | true =>
      change Ends _ ((Eff.liftExcept (requireApiKey env o.apiKey)).bind _) .. at hends
      cases hkey : requireApiKey env o.apiKey with
      | error e =>
        rw [hkey] at hends
        obtain ⟨rfl, rfl, -⟩ := hends
        exact Or.inl ⟨⟨_, rfl⟩, rfl⟩
      | ok key =>
        rw [hkey] at hends
        replace hends : Ends app.desk ((clientRequest key (.createJob o.payload)).bind _) c₁ cs out
          c' := hends
        rcases hends.bind with ⟨e, rfl, hrequest⟩ | ⟨v, c₂, cs₁, cs₂, rfl, hrequest, hends⟩
        · exact Or.inl ⟨⟨e, rfl⟩, (ends_clientRequest hrequest).1⟩
        obtain ⟨hsilent, hlooked, tr₂, hrun₂, hanswer⟩ := ends_clientRequest hrequest
        obtain ⟨i, ambient, resp, hi, hresp, hsent⟩ := answered_ok hanswer
        have hall : app.Run db₀ (tr₂ ++ (tr₁ ++ tr)) c₂ :=
          Service.Run.append (Service.Run.append h hrun₁) hrun₂
        obtain ⟨j, rfl⟩ := hall.order rfl hresp
        obtain ⟨d, rfl, hd⟩ := hsent
        -- the line is about the job in the answer
        replace hends : Ends app.desk (echo ("Created job " ++ display str (Dict.get? d "id") ++ " (" ++
          display str (Dict.get? d "status") ++ ")")) c₂ cs₂ out c' := hends
        rw [hd.id, hd.status] at hends
        obtain ⟨tr₃, hrun₃⟩ := ends_desk hends
        obtain ⟨-, c₃, cs₃, rfl, -, rfl, rfl, rfl⟩ := hends
        refine Or.inr ⟨rfl, ?_, c₁, tr₁, c₂, tr₂, tr₃, i, _, j, hrun₁, hrun₂, hrun₃, hi, rfl, hresp,
          ?_⟩
        · show (host.expanduser o.inputFile, .ok true) :: lookupsOf (cs₁ ++ [_]) = _
          rw [lookupsOf_append, hlooked]
          rfl
        · show linesOf (cs₁ ++ [_]) = _
          rw [linesOf_append, hsilent]
          rfl

/-- The place of a row in a list does not change. -/
theorem Listing.idxOf_grows (list : Listing) {db db' : Db} (h : db.Grows db') {k : String}
    (hk : k ∈ list.ids db) : (list.ids db').idxOf k = (list.ids db).idxOf k := by
  obtain ⟨rest, hrest⟩ := list.ids_grows h
  rw [← hrest, List.idxOf_append_of_mem hk]

/-- The rows of a job that are shown: one if it is among the first 100. -/
theorem count_cells (str : Json → String) {db : Db} {k : String} (hk : k ∈ Listing.jobs.ids db) :
    ((Listing.jobs.cells str db).map List.head?).count (some k) =
      if (Listing.jobs.ids db).idxOf k < 100 then 1 else 0 := by
  rw [Listing.shown_ids, List.count_map_of_injective _ _ (Option.some_injective _),
    List.Nodup.count ((Listing.jobs.nodup_ids db).sublist (List.take_sublist ..))]
  exact if_congr (List.mem_take_iff_idxOf_lt hk) rfl rfl

/-- The job with this id is new in the answered order, and on record as it was made. -/
theorem App.Run.order_recorded (h₀ : db₀.Linked) (h : app.Run db₀ tr c)
    {tr' : List (Trans app.controller)} (h' : app.controller.Run c tr' c') {i : ℕ} {r : Request}
    {j : Job} (hi : c.procs.length ≤ i) (ho : Answered c' i r j) :
    c.db.jobs.get? j.id = none ∧ ∀ tr'' c'', app.controller.Run c' tr'' c'' →
      ∃ j', c''.db.jobs.get? j.id = some j' ∧ j.SameOrder j' ∧ Ordered app r c''.db j' := by
  have hall : app.Run db₀ (tr' ++ tr) c' := Service.Run.append h h'
  obtain ⟨⟨t, ht, hby, hins⟩, t', ht', -, hread⟩ := hall.answered ho
  constructor
  · -- a row that was there before would still be there
    by_contra hsome
    obtain ⟨j₀, hj₀⟩ := Option.ne_none_iff_exists'.1 hsome
    obtain ⟨j₁, hj₁, -⟩ := (h.moment h' (h.since hi ht hby)).1.jobs.get? hj₀
    rw [hins.fresh.1] at hj₁
    cases hj₁
  · intro tr'' c'' h''
    have hlater := hall.grows_on h''
    have hlinked := App.Run.linked (Service.Run.append hall h'') h₀
    obtain ⟨j', hj', hord⟩ := hins.ordered ((hall.grows.2 t ht).2.trans hlater) hlinked
    obtain ⟨hstep, hrest⟩ := hall.grows.2 t' ht'
    obtain ⟨j'', hj'', hsame⟩ := ((hstep.trans hrest).trans hlater).jobs.get? hread
    cases hj'.symm.trans hj''
    exact ⟨j', hj', hsame, hord⟩

/-- **What `submit` tells is so.**  It fails without a line, or it has found the file and writes
    one line on a job; the job was not there when the command started, and from its end on it is
    on record as the options have ordered it, whatever else the Controller does; and a later
    `jobs` shows it in one row, if it is among the first 100, and else in none. -/
theorem submission_listed (h₀ : db₀.Linked) (h : app.Run db₀ tr c) {host : Host} {env : Environ}
    {o : SubmitOptions} {out : Except CliExn Unit}
    (hends : Ends app.desk (Cli.submit host str env o) c cs out c') :
    ((∃ e, out = .error e) ∧ linesOf cs = []) ∨
      (out = .ok () ∧ lookupsOf cs = [(host.expanduser o.inputFile, .ok true)] ∧
        ∃ j r, r.call = .createJob o.payload ∧ linesOf cs = [createdLine j] ∧
          c.db.jobs.get? j.id = none ∧
          (∀ tr' c₁, app.controller.Run c' tr' c₁ →
            ∃ j', c₁.db.jobs.get? j.id = some j' ∧ j.SameOrder j' ∧ Ordered app r c₁.db j') ∧
          ∀ tr' c₁ c₂ cs' env' apiKey', app.controller.Run c' tr' c₁ →
            Ends app.desk (Cli.jobs str env' apiKey') c₁ cs' (.ok ()) c₂ →
            ∃ tr₂, app.controller.Run c₁ tr₂ c₂ ∧
              ∃ t ∈ tr₂, linesOf cs' = Listing.jobs.table str t.pre.db ∧
                ((Listing.jobs.cells str t.pre.db).map List.head?).count (some j.id) =
                  if (Listing.jobs.ids c'.db).idxOf j.id < 100 then 1 else 0) := by
  rcases ends_submit h hends with hfail | ⟨hok, hlooked, c₁, tr₁, c₂, tr₂, tr₃, i, r, j, hrun₁, hrun₂,
    hrun₃, hi, hr, ho, hline⟩
  · exact Or.inl hfail
  have hall₁ : app.Run db₀ (tr₁ ++ tr) c₁ := Service.Run.append h hrun₁
  obtain ⟨hnew, hrecord⟩ := hall₁.order_recorded h₀ hrun₂ hi ⟨⟨_, hr⟩, ho⟩
  have hall : app.Run db₀ (tr₃ ++ (tr₂ ++ (tr₁ ++ tr))) c' :=
    Service.Run.append (Service.Run.append hall₁ hrun₂) hrun₃
  refine Or.inr ⟨hok, hlooked, j, r, hr, hline, ?_, fun tr' c₃ hrun => ?_, ?_⟩
  · by_contra hsome
    obtain ⟨j₀, hj₀⟩ := Option.ne_none_iff_exists'.1 hsome
    obtain ⟨j₁, hj₁, -⟩ := (h.grows_on hrun₁).jobs.get? hj₀
    rw [hnew] at hj₁
    cases hj₁
  · exact hrecord _ c₃ (Service.Run.append hrun₃ hrun)
  · intro tr' c₃ c₄ cs' env' apiKey' hrun hends'
    have hall₃ : app.Run db₀ (tr' ++ (tr₃ ++ (tr₂ ++ (tr₁ ++ tr)))) c₃ :=
      Service.Run.append hall hrun
    replace hends' : Ends app.desk (Listing.jobs.command str env' apiKey') c₃ cs' (.ok ()) c₄ := hends'
    rcases ends_list hall₃ hends' with ⟨⟨e, he⟩, -⟩ | ⟨-, -, tr₄, hrun₄, t, ht, hlines⟩
    · cases he
    obtain ⟨j', hj', -⟩ := hrecord _ c' hrun₃
    have hthere : j.id ∈ Listing.jobs.ids c'.db := by
      rw [← Table.key_of_get? hj']
      exact List.mem_map_of_mem (Table.mem_of_get? hj')
    have hgrown : c'.db.Grows t.pre.db := (hall.grows_on hrun).trans (hall₃.moment hrun₄ ht).1
    refine ⟨tr₄, hrun₄, t, ht, hlines, ?_⟩
    rw [count_cells str ((Listing.jobs.ids_grows hgrown).subset hthere),
      Listing.idxOf_grows .jobs hgrown hthere]

/-- An order of subtitles. -/
def sampleSubmission : SubmitOptions where
  inputFile := Posix.PurePath.ofString "/media/in.mp4"
  apiKey := some "key"

/-- The first job, which a later `jobs` shows in one row. -/
theorem submission_listed_sample : ∃ cs c' j cs' c'',
    Ends sampleApp.desk (Cli.submit plainHost (fun _ => "") (fun _ => none) sampleSubmission)
      ⟨Db.empty, []⟩ cs (.ok ()) c' ∧
    linesOf cs = [createdLine j] ∧ (c'.db.jobs.get? j.id).isSome ∧
    Ends sampleApp.desk (Cli.jobs (fun _ => "") (fun _ => none) (some "key")) c' cs' (.ok ()) c'' ∧
    ∃ tr, sampleApp.controller.Run c' tr c'' ∧
      ∃ t ∈ tr, linesOf cs' = Listing.jobs.table (fun _ => "") t.pre.db ∧
        ((Listing.jobs.cells (fun _ => "") t.pre.db).map List.head?).count (some j.id) = 1 := by
  let c : Conf Db HttpError Response Request := ⟨Db.empty, []⟩
  let q : HttpRequest := ⟨.createJob sampleSubmission.payload, { authorization := some "Bearer key" }⟩
  let env := (sampleRequest 1 q.call).ambient
  have hok : ((sampleApp.handle ⟨q.call, q.headers, env⟩).exec c.db).1.toOption.isSome = true := by
    decide +kernel
  have hone : (Listing.jobs.ids ((sampleApp.handle ⟨q.call, q.headers, env⟩).exec c.db).2).length =
      1 := by
    decide +kernel
  obtain ⟨j, hj⟩ : ∃ j, ((sampleApp.handle ⟨q.call, q.headers, env⟩).exec c.db).1 = .ok (.job j) := by
    obtain ⟨tr, c', hrun, -, hprocs⟩ :=
      Service.run_exec (S := sampleApp.controller) c ⟨q.call, q.headers, env⟩
    generalize hres : (Prog.exec _ _).1 = res at hok ⊢
    cases res with
    | error => cases hok
    | ok resp =>
      obtain ⟨j, rfl⟩ := App.Run.order (i := 0) hrun rfl (by rw [hprocs, ← hres]; rfl)
      exact ⟨j, rfl⟩
  obtain ⟨c₁, hdesk, hdb⟩ := desk_request c q env hj (v := some (.obj j.json))
    ⟨_, rfl, (⟨rfl, rfl, rfl, rfl⟩ : j.Carried j.json)⟩
  rw [← hdb] at hone
  have hends : Ends sampleApp.desk (Cli.submit plainHost (fun _ => "") (fun _ => none) sampleSubmission)
      c _ (.ok ()) c₁ :=
    ⟨.ok true, c, _, rfl, ⟨[], .init⟩, _, c₁, _, rfl, hdesk, (), c₁, _, rfl, ⟨[], .init⟩, rfl, rfl, rfl⟩
  obtain ⟨cs', c₂, hshown⟩ := sampleApp_shows c₁
  rcases submission_listed Db.empty_linked (Service.Run.init) hends with
    ⟨⟨e, he⟩, -⟩ | ⟨-, -, j', r, -, hline, -, hrecord, hlater⟩
  · cases he
  · obtain ⟨j'', hj'', -⟩ := hrecord [] c₁ .init
    obtain ⟨tr, hrun, t, ht, hlines, hcount⟩ := hlater [] c₁ c₂ cs' _ _ .init hshown
    have hplace : (Listing.jobs.ids c₁.db).idxOf j'.id < 100 := by
      have hthere : j'.id ∈ Listing.jobs.ids c₁.db := by
        rw [← Table.key_of_get? hj'']
        exact List.mem_map_of_mem (Table.mem_of_get? hj'')
      have := List.idxOf_lt_length_of_mem hthere
      omega
    rw [if_pos hplace] at hcount
    exact ⟨_, c₁, j', cs', c₂, hends, hline, Option.isSome_of_eq_some hj'', hshown, tr, hrun, t, ht,
      hlines, hcount⟩

end MediaOrchard
