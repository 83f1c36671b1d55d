import RecordSource.Outcome
import RecordSource.Proofs.Lookup.Obtaining
import RecordSource.Proofs.Paging.Replies
import RecordSource.Proofs.Query.Requests

/-!
Where failures go. A failure that ends a query is told in the words of its domain, reported once and returned, and
nothing is asked for after the answer that is to blame. A table that cannot be looked up leaves a warning and no more.
-/
namespace RecordSource

namespace Service

/-- What is wrong with the answer to a request for a page, in the words of the domain. -/
def blame? (s : Service) (answer : Transport.Answer) : Option Query.Failure :=
  match answer.outcome with
  | .error f => some (.diagnosed (s.guidance.diagnose f))
  | .ok body =>
    match s.records? body with
    | .error m => some (.malformed m)
    | .ok _ => none

/-- The answers to the requests for pages with which a query fails: the last one is to blame, or there are too many. -/
inductive FailsWith (s : Service) : List Transport.Answer → Query.Failure → Prop
  | blamed (pages : List Transport.Answer) (last : Transport.Answer) (e : Query.Failure)
      (sound : ∀ a ∈ pages, s.blame? a = none) (flaw : s.blame? last = some e) : FailsWith s (pages ++ [last]) e
  | endless (pages : List Transport.Answer) (sound : ∀ a ∈ pages, s.blame? a = none) :
      FailsWith s pages (.endless pages.length)

variable {s : Service}

theorem blame?_cases {answer : Transport.Answer} {e : Query.Failure} (h : s.blame? answer = some e) :
    (∃ d, e = .diagnosed d) ∨ ∃ m, e = .malformed m := by
  unfold blame? at h
  cases houtcome : answer.outcome with
  | error f =>
    simp only [houtcome, Option.some.injEq] at h
    exact .inl ⟨_, h.symm⟩
  | ok body =>
    cases hrecords : s.records? body with
    | error m =>
      simp only [houtcome, hrecords, Option.some.injEq] at h
      exact .inr ⟨_, h.symm⟩
    | ok records => simp [houtcome, hrecords] at h

/-- A query fails with a diagnosis, a malformed answer or endless pages, and with nothing else. -/
theorem FailsWith.cases {answers : List Transport.Answer} {e : Query.Failure} (h : s.FailsWith answers e) :
    (∃ d, e = .diagnosed d) ∨ (∃ m, e = .malformed m) ∨ ∃ n, e = .endless n := by
  cases h with
  | blamed pages last e sound flaw =>
    rcases blame?_cases flaw with hd | hm
    · exact .inl hd
    · exact .inr (.inl hm)
  | endless sound => exact .inr (.inr ⟨_, rfl⟩)

end Service

namespace Query
variable {σ κ π : Type}

/-! The pages of a service, and what the other side answers. -/

/-- What an answer comes to as a page. -/
def pageOutcome (read : Json → Except Malformed π) (answer : Transport.Answer) : Except Failure π :=
  match answer.outcome with
  | .ok body => (read body).mapError .malformed
  | .error f => .error (.transport f)

/-- A way to read pages that fails where the records cannot be read, and nowhere else. -/
def ReadsRecords (s : Service) (read : Json → Except Malformed π) : Prop :=
  ∃ f : Json → List Json → π, ∀ body, read body = (s.records? body).map (f body)

section
variable {s : Service} {read : Json → Except Malformed π} (hread : ReadsRecords s read) {answer : Transport.Answer}
include hread

theorem blame?_of_page {page : π} (h : pageOutcome read answer = .ok page) : s.blame? answer = none := by
  obtain ⟨f, hf⟩ := hread
  unfold pageOutcome at h
  unfold Service.blame?
  cases houtcome : answer.outcome with
  | error e => simp [houtcome] at h
  | ok body =>
    cases hrecords : s.records? body with
    | error m => simp [houtcome, hf, hrecords, Except.map] at h
    | ok records => simp only [hrecords]

theorem blame?_of_error {e : Failure} (h : pageOutcome read answer = .error e) : s.blame? answer = some (e.told s) := by
  obtain ⟨f, hf⟩ := hread
  unfold pageOutcome at h
  unfold Service.blame?
  cases houtcome : answer.outcome with
  | error f =>
    simp only [houtcome, Except.error.injEq] at h
    rw [← h]
    rfl
  | ok body =>
    cases hrecords : s.records? body with
    | error m =>
      simp only [houtcome, hf, hrecords, Except.map, Outcome.mapError_error, Except.error.injEq] at h
      simp only [hrecords, ← h]
      rfl
    | ok records => simp [houtcome, hf, hrecords, Except.map] at h

end

section
variable (request : Paging.Call κ → Transport.Request) (read : Json → Except Malformed π)
  (remote : Transport.Remote σ) (state : σ) (calls : List (Paging.Call κ))

/-- The requests that some calls for pages come to. -/
def sentFor (request : Paging.Call κ → Transport.Request) (calls : List (Paging.Call κ)) : List Transport.Sent :=
  calls.map fun call => ⟨request call, call.start⟩

theorem outcomes_pageServer : Paging.outcomes (pageServer request read remote) state calls =
    (remote.dialogue state (sentFor request calls)).map fun x => pageOutcome read x.2 := by
  induction calls generalizing state with
  | nil => rfl
  | cons call calls ih =>
    rw [Paging.outcomes_cons, ih]
    rfl

theorem after_pageServer : Paging.after (pageServer request read remote) state calls =
    remote.after state (sentFor request calls) := by
  induction calls generalizing state with
  | nil => rfl
  | cons call calls ih => exact ih (remote state ⟨request call, call.start⟩).2

end

/-- What the result of a retrieval says of the answers to its requests. -/
def Told (s : Service) (answers : List Transport.Answer) : Except Failure (Paging.Retrieved Json) → Prop
  | .ok _ => ∀ a ∈ answers, s.blame? a = none
  | .error e => s.FailsWith answers (e.told s)

theorem told_of_leadTo {s : Service} {read : Json → Except Malformed π} (hread : ReadsRecords s read)
    {answers : List Transport.Answer} {result : Except (Paging.Stop Failure) (Paging.Retrieved Json)}
    (h : Paging.LeadTo 0 (answers.map (pageOutcome read)) result) :
    Told s answers (result.mapError fun
      | .failed f => f
      | .endless pages => .endless pages) := by
  have hsound : ∀ {first : List Transport.Answer} {pages : List π},
      first.map (pageOutcome read) = pages.map .ok → ∀ a ∈ first, s.blame? a = none := by
    intro first pages hfirst a ha
    have hpage : pageOutcome read a ∈ pages.map Except.ok := hfirst ▸ List.mem_map_of_mem ha
    obtain ⟨page, _, hok⟩ := List.mem_map.1 hpage
    exact blame?_of_page hread hok.symm
  generalize houts : answers.map (pageOutcome read) = outs at h
  cases h with
  | retrieved pages r => exact hsound houts
  | endless pages =>
    have hcount : 0 + pages.length = answers.length := by
      rw [Nat.zero_add, ← List.length_map (Except.ok : π → Except Failure π), ← houts, List.length_map]
    rw [hcount]
    exact .endless answers (hsound houts)
  | failed pages e =>
    obtain ⟨before, rest, rfl, hbefore, hrest⟩ := List.map_eq_append_iff.1 houts
    obtain ⟨last, rfl, hlast⟩ := List.map_eq_singleton_iff.1 hrest
    exact .blamed before last _ (hsound hbefore) (blame?_of_error hread hlast)

theorem told_ofRun {s : Service} (read : Json → Except Malformed π) (hread : ReadsRecords s read)
    (request : Paging.Call κ → Transport.Request) (limits : Paging.Limits) (target : Option Nat)
    (style : Paging.Style κ π Json) (first : κ) (remote : Transport.Remote σ) (state : σ) :
    let r := Retrieval.ofRun request
      (Paging.run limits target style first (pageServer request read remote) 0 state)
    Told s ((remote.dialogue state r.requests).map Prod.snd) r.result ∧ r.remote = remote.after state r.requests := by
  intro r
  obtain ⟨hlead, hafter⟩ := Paging.run_leadTo limits target style first (pageServer request read remote) 0 state
  rw [outcomes_pageServer] at hlead
  rw [after_pageServer] at hafter
  refine ⟨told_of_leadTo hread ?_, hafter⟩
  rw [List.map_map]
  exact hlead

/-- Whatever the other side answers, the result of a retrieval tells of the answers to its requests. -/
theorem told_retrieve (s : Service) (q : Query) (filter : String) (remote : Transport.Remote σ) (state : σ) :
    let r := retrieve s q filter remote state
    Told s ((remote.dialogue state r.requests).map Prod.snd) r.result ∧ r.remote = remote.after state r.requests := by
  unfold retrieve
  cases s.walk with
  | cursor => exact told_ofRun s.page? ⟨_, fun _ => rfl⟩ _ _ _ _ _ _ _
  | offset => exact told_ofRun s.offsetPage? ⟨_, fun _ => rfl⟩ _ _ _ _ _ _ _

/-- Between queries no table is on its way. -/
structure State.Rests (state : State σ) : Prop where
  workspaces : Lookup.Loading.workspaces.Rests state.workspaces
  products : Lookup.Loading.products.Rests state.products

theorem State.rests_start (start : σ) : State.Rests { remote := start } :=
  ⟨Lookup.Loading.rests_new _, Lookup.Loading.rests_new _⟩

section
variable {ν : Type} (l : Lookup.Loading ν) (remote : Transport.Remote σ) (c : Lookup.TableCache ν) (state : σ)

/-- What came of a table that was asked for, if it was. -/
def IsObtained (o : Option (Lookup.Obtained σ ν)) : Prop :=
  ∀ x ∈ o, ∃ source now, x = l.obtain source remote c now state

variable {l remote c state}

theorem IsObtained.requests {o : Option (Lookup.Obtained σ ν)} (h : IsObtained l remote c state o) (s : σ) :
    ∀ x ∈ remote.dialogue s ((o.map (·.requests)).getD []), x.1.request = l.request := by
  intro x hx
  have hsent := Transport.Remote.fst_mem_of_mem_dialogue hx
  cases o with
  | none => cases hsent
  | some o =>
    obtain ⟨source, now, rfl⟩ := h o rfl
    exact requests_obtain l source remote c now state x.1 hsent

theorem IsObtained.spec {o : Option (Lookup.Obtained σ ν)} (h : IsObtained l remote c state o) (hc : l.Rests c) :
    let requests := (o.map (·.requests)).getD []
    l.Rests ((o.map (·.cache)).getD c) ∧ (o.map (·.remote)).getD state = remote.after state requests ∧
      (o.bind (·.cache.warning)).toList =
        (remote.dialogue state requests).filterMap fun x => l.warning? x.2 := by
  intro requests
  cases o with
  | none => exact ⟨hc, rfl, rfl⟩
  | some x =>
    obtain ⟨source, now, rfl⟩ := h x rfl
    exact hc.obtain source remote now state

end

/-- A table is laid out with what came of the tables it needs, workspaces first. -/
theorem present_eq (set : Setting) (q : Query) (retrieved : Paging.Retrieved Json) (remote : Transport.Remote σ)
    (now : Nat) (state : State σ) : ∃ w p,
    let left := (w.map (·.remote)).getD state.remote
    IsObtained Lookup.Loading.workspaces remote state.workspaces state.remote w ∧
    IsObtained Lookup.Loading.products remote state.products left p ∧
    (workspaceColumn ∈ columnsOf set.service q →
      w = some (Lookup.Loading.workspaces.obtain set.workspaces remote state.workspaces now state.remote)) ∧
    (present set q retrieved remote now state).1.rows =
      rowsOf ⟨w.map (·.table), p.map (·.table)⟩ set.service.partNumberField? (columnsOf set.service q)
        retrieved.records ∧
    (present set q retrieved remote now state).1.warnings =
      (w.bind (·.cache.warning)).toList ++ (p.bind (·.cache.warning)).toList ∧
    (present set q retrieved remote now state).2 =
      ((w.map (·.requests)).getD [] ++ (p.map (·.requests)).getD [],
        ⟨(p.map (·.remote)).getD left, (w.map (·.cache)).getD state.workspaces,
          (p.map (·.cache)).getD state.products⟩) := by
  let columns := columnsOf set.service q
  let w := if workspaceColumn ∈ columns then
      some (Lookup.Loading.workspaces.obtain set.workspaces remote state.workspaces now state.remote)
    else none
  let left := (w.map (·.remote)).getD state.remote
  let p := if productColumn ∈ columns then
      set.products?.map fun source =>
        Lookup.Loading.products.obtain source remote state.products ((w.map (·.finish)).getD now) left
    else none
  have hw : IsObtained Lookup.Loading.workspaces remote state.workspaces state.remote w := by
    intro x hx
    obtain ⟨_, hx⟩ := Option.ite_none_right_eq_some.1 hx
    exact ⟨_, _, (Option.some.inj hx).symm⟩
  have hp : IsObtained Lookup.Loading.products remote state.products left p := by
    intro x hx
    obtain ⟨_, hsource⟩ := Option.ite_none_right_eq_some.1 hx
    obtain ⟨source, _, rfl⟩ := Option.map_eq_some_iff.1 hsource
    exact ⟨_, _, rfl⟩
  refine ⟨w, p, hw, hp, fun hcolumn => if_pos hcolumn, ?_⟩
  by_cases hcolumn : workspaceColumn ∈ columnsOf set.service q
  · simp only [present, p, w, left, columns, if_pos hcolumn, Option.map_some, Option.getD_some, true_and]
    cases ite (productColumn ∈ columnsOf set.service q) _ _ <;> rfl
  · simp only [present, p, w, left, columns, if_neg hcolumn, Option.map_none, Option.getD_none, true_and]
    cases ite (productColumn ∈ columnsOf set.service q) _ _ <;> rfl

/-- What the other side was asked for tables and what it answered, workspaces first. Each answer without a table leaves
a warning, and there are no others. -/
def Decorates (warnings : List Lookup.Warning) (dialogue : List (Transport.Sent × Transport.Answer)) : Prop :=
  ∃ workspaces products, dialogue = workspaces ++ products ∧
    (∀ x ∈ workspaces, x.1.request = Lookup.Loading.workspaces.request) ∧
    (∀ x ∈ products, x.1.request = Lookup.Loading.products.request) ∧
    warnings = workspaces.filterMap (fun x => Lookup.Loading.workspaces.warning? x.2) ++
      products.filterMap fun x => Lookup.Loading.products.warning? x.2

theorem present_spec (set : Setting) (q : Query) (retrieved : Paging.Retrieved Json) (remote : Transport.Remote σ)
    (now : Nat) {state : State σ} (h : state.Rests) :
    let out := present set q retrieved remote now state
    out.2.2.Rests ∧ out.2.2.remote = remote.after state.remote out.2.1 ∧
      Decorates out.1.warnings (remote.dialogue state.remote out.2.1) := by
  intro out
  obtain ⟨w, p, hw, hp, -, -, hwarnings, hrest⟩ := present_eq set q retrieved remote now state
  obtain ⟨hrestsW, hremoteW, hwarningsW⟩ := hw.spec h.workspaces
  obtain ⟨hrestsP, hremoteP, hwarningsP⟩ := hp.spec h.products
  rw [hrest, hwarnings, hwarningsW, hwarningsP]
  refine ⟨⟨hrestsW, hrestsP⟩, ?_, _, _, ?_, hw.requests _, hp.requests _, rfl⟩
  · rw [Transport.Remote.after_append, ← hremoteW]
    exact hremoteP
  · rw [Transport.Remote.dialogue_append, ← hremoteW]

/-- How a query ends, given what was asked on the way and answered. -/
def EndsAs (set : Setting) (q : Query) (locals : Template.Bindings)
    (dialogue : List (Transport.Sent × Transport.Answer)) (alerts : List Alert) : Except Failure Table → Prop
  | .error e => alerts = [alertOf set.service e] ∧ (∀ x ∈ dialogue, x.1.request.path = set.service.endpoint) ∧
      ((∃ fault, e = .filter fault ∧ set.filter? q.filter locals = .error fault ∧ dialogue = []) ∨
        set.service.FailsWith (dialogue.map Prod.snd) e)
  | .ok table => alerts = [] ∧ ∃ pages tables, dialogue = pages ++ tables ∧
      (∀ x ∈ pages, x.1.request.path = set.service.endpoint ∧ set.service.blame? x.2 = none) ∧
      Decorates table.warnings tables

theorem path_of_mem_dialogue {s : Service} {q : Query} {filter : String} {remote : Transport.Remote σ}
    {state : σ} {x : Transport.Sent × Transport.Answer}
    (hx : x ∈ remote.dialogue state (retrieve s q filter remote state).requests) : x.1.request.path = s.endpoint := by
  exact (requests_retrieve s q filter remote state x.1 (Transport.Remote.fst_mem_of_mem_dialogue hx)).path

/-- A query that finds no table on its way leaves none. -/
theorem run_endsAs (set : Setting) (remote : Transport.Remote σ) (q : Query) (locals : Template.Bindings)
    {state : State σ} (h : state.Rests) :
    let out := run set remote q locals state
    out.state.Rests ∧ EndsAs set q locals (remote.dialogue state.remote out.requests) out.alerts out.result := by
  intro out
  cases hfilter : set.filter? q.filter locals with
  | error fault =>
    have hout : out = _ := run_of_fault hfilter remote state
    rw [hout]
    exact ⟨h, rfl, List.forall_mem_nil _, .inl ⟨fault, rfl, hfilter, rfl⟩⟩
  | ok filter =>
    obtain ⟨htold, hremote⟩ := told_retrieve set.service q filter remote state.remote
    let r := retrieve set.service q filter remote state.remote
    have hrests : State.Rests { state with remote := r.remote } := ⟨h.workspaces, h.products⟩
    cases hresult : r.result with
    | error f =>
      have hout : out = _ := run_of_failure hfilter hresult
      rw [hresult] at htold
      rw [hout]
      exact ⟨hrests, rfl, fun x hx => path_of_mem_dialogue hx, .inr htold⟩
    | ok retrieved =>
      have hout : out = _ := run_of_records hfilter hresult
      obtain ⟨hleft, _, hshown⟩ := present_spec set q retrieved remote r.finish hrests
      rw [hresult] at htold
      rw [hout, Transport.Remote.dialogue_append, ← hremote]
      refine ⟨hleft, rfl, _, _, rfl, ?_, hshown⟩
      intro x hx
      exact ⟨path_of_mem_dialogue hx, htold x.2 (List.mem_map_of_mem hx)⟩

/-- A query ends with a fault of its filter exactly if the filter is not to be sent. -/
theorem result_eq_filter_iff {set : Setting} {remote : Transport.Remote σ} {q : Query} {locals : Template.Bindings}
    {state : State σ} (h : state.Rests) {fault : Filter.Fault} :
    (run set remote q locals state).result = .error (.filter fault) ↔ set.filter? q.filter locals = .error fault := by
  constructor
  · intro hresult
    obtain ⟨_, hends⟩ := run_endsAs set remote q locals h
    rw [hresult] at hends
    obtain ⟨_, _, ⟨other, heq, hfilter, _⟩ | hfails⟩ := hends
    · cases heq
      exact hfilter
    · rcases hfails.cases with ⟨_, hd⟩ | ⟨_, hm⟩ | ⟨_, hn⟩
      · cases hd
      · cases hm
      · cases hn
  · intro hfilter
    rw [run, hfilter]

/-- What some queries leave behind, answered one after the other. -/
def runs (remote : Transport.Remote σ) : State σ → List (Setting × Query × Template.Bindings) → State σ
  | state, [] => state
  | state, (set, q, locals) :: rest => runs remote (run set remote q locals state).state rest

theorem State.Rests.runs {state : State σ} (h : state.Rests) (remote : Transport.Remote σ)
    (queries : List (Setting × Query × Template.Bindings)) : (Query.runs remote state queries).Rests := by
  induction queries generalizing state with
  | nil => exact h
  | cons query rest ih => exact ih (run_endsAs query.1 remote query.2.1 query.2.2 h).1

/-- No table is looked up at the endpoint of a domain. -/
theorem not_asksForTable_of_path {d : Domain} {r : Transport.Request} (h : r.path = d.service.endpoint) :
    ¬AsksForTable r := by
  rintro (rfl | rfl) <;> revert h <;> cases d <;> decide

/-- Only where unknown fields are refused can a filter keep a query from being sent. -/
theorem Setting.unknown_of_filter?_error {set : Setting} {filter : String} {locals : Template.Bindings}
    {fault : Filter.Fault} (h : set.filter? filter locals = .error fault) : set.unknown = .refuse := by
  unfold Setting.filter? at h
  cases hunknown : set.unknown with
  | keep => simp [hunknown] at h
  | refuse => rfl

/-- In each domain, after any earlier queries and whatever the other side answers. A query that fails sends one alert
with the message of its failure, which is never a bare transport failure, and it looks no table up; either it refuses
its filter and asks for nothing, or the last answer is to blame for the failure and none before it, or there are too
many pages. A query that comes to a table sends no alert; its pages are sound, and its warnings are those that the
answers to its look-ups leave. -/
theorem run_failures (d : Domain) (set : Setting) (remote : Transport.Remote σ) (start : σ)
    (earlier : List (Setting × Query × Template.Bindings)) (q : Query) (locals : Template.Bindings) :
    let set := { set with service := d.service }
    let state := runs remote { remote := start } earlier
    let out := run set remote q locals state
    let dialogue := remote.dialogue state.remote out.requests
    match out.result with
    | .error e =>
      out.alerts = [⟨"Error during " ++ d.service.name ++ " query", e.message⟩] ∧ (∀ f, e ≠ .transport f) ∧
      (∀ sent ∈ out.requests, sent.request.path = d.service.endpoint ∧ ¬AsksForTable sent.request) ∧
      ((∃ fault, e = .filter fault ∧ set.unknown = .refuse ∧ set.filter? q.filter locals = .error fault ∧
          out.requests = []) ∨
        d.service.FailsWith (dialogue.map Prod.snd) e)
    | .ok table =>
      out.alerts = [] ∧ ∃ pages tables, dialogue = pages ++ tables ∧
        (∀ x ∈ pages, x.1.request.path = d.service.endpoint ∧ d.service.blame? x.2 = none) ∧
        Decorates table.warnings tables := by
  intro set state out dialogue
  have hrests : state.Rests := (State.rests_start start).runs remote earlier
  obtain ⟨_, hends⟩ := run_endsAs set remote q locals hrests
  have hrequests : dialogue.map Prod.fst = out.requests := Transport.Remote.map_fst_dialogue remote _ _
  change EndsAs set q locals dialogue out.alerts out.result at hends
  cases hresult : out.result with
  | ok table =>
    rw [hresult] at hends
    exact hends
  | error e =>
    rw [hresult] at hends
    obtain ⟨halerts, hpaths, hcause⟩ := hends
    refine ⟨halerts, ?_, ?_, ?_⟩
    · rintro f rfl
      rcases hcause with ⟨fault, hfault, _⟩ | hfails
      · cases hfault
      · rcases hfails.cases with ⟨_, hd⟩ | ⟨_, hm⟩ | ⟨_, hn⟩
        · cases hd
        · cases hm
        · cases hn
    · intro sent hsent
      rw [← hrequests] at hsent
      obtain ⟨x, hx, rfl⟩ := List.mem_map.1 hsent
      exact ⟨hpaths x hx, not_asksForTable_of_path (hpaths x hx)⟩
    · refine hcause.imp ?_ id
      rintro ⟨fault, rfl, hfilter, hnone⟩
      refine ⟨fault, rfl, Setting.unknown_of_filter?_error hfilter, hfilter, ?_⟩
      rw [← hrequests, hnone, List.map_nil]

end Query
end RecordSource
