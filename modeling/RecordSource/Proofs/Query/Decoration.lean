import RecordSource.Proofs.Query.Failures

/-!
What the tables that results are decorated with can change: their own cells. Two queries that are answered alike where
they ask for pages go the same way, whatever comes of the look-ups of either, and a cell with a workspace shows either
what the record holds or the name that the table of this query gives it.
-/
namespace RecordSource

namespace Transport.Remote
variable {σ σ' : Type} {P : Request → Prop} {remote : Remote σ} {remote' : Remote σ'} {state : σ} {state' : σ'}

/-- As long as they are asked for nothing but what is given, two other sides answer alike. -/
def AnswersAlike (P : Request → Prop) (remote : Remote σ) (remote' : Remote σ') (state : σ) (state' : σ') : Prop :=
  ∀ sents, (∀ x ∈ sents, P x.request) → remote.dialogue state sents = remote'.dialogue state' sents

theorem AnswersAlike.answer (h : AnswersAlike P remote remote' state state') (sent : Sent) (hsent : P sent.request) :
    (remote state sent).1 = (remote' state' sent).1 ∧
      AnswersAlike P remote remote' (remote state sent).2 (remote' state' sent).2 := by
  have hcons {sents : List Sent} (hsents : ∀ x ∈ sents, P x.request) :
      remote.dialogue state (sent :: sents) = remote'.dialogue state' (sent :: sents) :=
    h _ (List.forall_mem_cons.2 ⟨hsent, hsents⟩)
  constructor
  · exact congrArg Prod.snd (List.cons.inj (hcons (List.forall_mem_nil _))).1
  · intro sents hsents
    exact (List.cons.inj (hcons hsents)).2

end Transport.Remote

namespace Query
variable {σ σ' κ π : Type}

/-! Pages that are answered alike. -/

section
variable {P : Transport.Request → Prop} {remote : Transport.Remote σ} {remote' : Transport.Remote σ'} {state : σ}
  {state' : σ'}

theorem replyAlike_pageServer {request : Paging.Call κ → Transport.Request} (h : ∀ call, P (request call))
    (read : Json → Except Malformed π) :
    Paging.ReplyAlike (remote.AnswersAlike P remote') (pageServer request read remote)
      (pageServer request read remote') := by
  intro state state' halike call
  obtain ⟨hanswer, hnext⟩ := halike.answer ⟨request call, call.start⟩ (h call)
  refine ⟨?_, hnext⟩
  simp only [pageServer, hanswer]

theorem ofRun_alike (h : remote.AnswersAlike P remote' state state') {request : Paging.Call κ → Transport.Request}
    (hrequest : ∀ call, P (request call)) (read : Json → Except Malformed π) (limits : Paging.Limits)
    (target : Option Nat) (style : Paging.Style κ π Json) (first : κ) :
    let r := Retrieval.ofRun request (Paging.run limits target style first (pageServer request read remote) 0 state)
    let r' := Retrieval.ofRun request (Paging.run limits target style first (pageServer request read remote') 0 state')
    r.requests = r'.requests ∧ r.result = r'.result ∧ r.finish = r'.finish := by
  obtain ⟨hcalls, hresult, hfinish⟩ :=
    (replyAlike_pageServer hrequest read).run limits target style first 0 h
  simp only [Retrieval.ofRun, hcalls, hresult, hfinish, and_self]

/-- Where requests for pages are answered alike, the same records are retrieved by the same requests. -/
theorem retrieve_alike {s : Service} (q : Query) (filter : String)
    (h : remote.AnswersAlike (·.path = s.endpoint) remote' state state') :
    let r := retrieve s q filter remote state
    let r' := retrieve s q filter remote' state'
    r.requests = r'.requests ∧ r.result = r'.result ∧ r.finish = r'.finish := by
  unfold retrieve
  cases s.walk with
  | cursor => exact ofRun_alike h (fun _ => rfl) s.page? _ _ _ _
  | offset => exact ofRun_alike h (fun _ => rfl) s.offsetPage? _ _ _ _

end

/-! Cells. -/

/-- The cell of a table in a row and a column. -/
def Table.cell? (t : Table) (i j : Nat) : Option Json := t.rows[i]?.bind (·[j]?)

/-- What may be shown for a value if a table of workspaces was found or not: the name that the table gives it, or the
value itself if it gives none. -/
inductive Shows (found? : Option (Lookup.Table Lookup.Workspace)) (own : Json) : Json → Prop
  | named {table : Lookup.Table Lookup.Workspace} {id : String} {w : Lookup.Workspace} (hfound : found? = some table)
    (hown : own = .string id) (hw : table.lookup id = some w) : Shows found? own (.string w.name)
  | own (h : ∀ table ∈ found?, ∀ id, own = .string id → table.lookup id = none) : Shows found? own own

theorem Shows.eq_own {own v : Json} (h : Shows none own v) : v = own := by
  cases h with
  | named hfound => cases hfound
  | own => rfl

/-- A table whose rows are for some records, in order. Its plain cells hold the fields of the records, and its cells
with workspaces show what the records hold there; if no workspaces are found, they hold the fields as well. -/
structure LaidOut (found? : Option (Lookup.Table Lookup.Workspace)) (records : List Json) (t : Table) : Prop where
  rows : t.rows.length = records.length
  widths : ∀ row ∈ t.rows, row.length = t.columns.length
  plain : ∀ i j column, t.columns[j]? = some column → column ≠ workspaceColumn → column ≠ productColumn →
    t.cell? i j = records[i]?.map (fieldValue · column)
  workspace : ∀ i j record, records[i]? = some record → t.columns[j]? = some workspaceColumn →
    ∃ v, t.cell? i j = some v ∧ Shows found? (fieldValue record workspaceColumn) v ∧
      (found? = none → v = fieldValue record workspaceColumn)

namespace LaidOut
variable {found? found'? : Option (Lookup.Table Lookup.Workspace)} {records : List Json} {t t' : Table}

theorem cell?_eq_none (h : LaidOut found? records t) {j : Nat} (hj : t.columns[j]? = none) (i : Nat) :
    t.cell? i j = none := by
  rw [Table.cell?, Option.bind_eq_none_iff]
  intro row hrow
  have hwidth := h.widths row (List.mem_of_getElem? hrow)
  rw [List.getElem?_eq_none_iff] at hj ⊢
  omega

/-- Plain cells are the same whatever workspaces are found. -/
theorem cell?_eq (h : LaidOut found? records t) (h' : LaidOut found'? records t') (hcolumns : t.columns = t'.columns)
    {j : Nat} (hworkspace : t.columns[j]? ≠ some workspaceColumn) (hproduct : t.columns[j]? ≠ some productColumn)
    (i : Nat) : t.cell? i j = t'.cell? i j := by
  cases hcolumn : t.columns[j]? with
  | none => rw [h.cell?_eq_none hcolumn, h'.cell?_eq_none (hcolumns ▸ hcolumn)]
  | some column =>
    rw [hcolumn, ne_eq, Option.some.injEq] at hworkspace hproduct
    rw [h.plain i j column hcolumn hworkspace hproduct, h'.plain i j column (hcolumns ▸ hcolumn) hworkspace hproduct]

end LaidOut

section
variable {found? : Option (Lookup.Table Lookup.Workspace)} {d : Decoration} {partNumberField? : Option String}

theorem shows_workspaceName (h : d.workspaces = some (found?.getD [])) (own : Json) :
    Shows found? own (workspaceName d own) := by
  cases own with
  | string id =>
    have hname : workspaceName d (.string id) =
        (((found?.getD []).lookup id).map fun w => Json.string w.name).getD (.string id) := by
      cases hw : (found?.getD []).lookup id <;> simp [workspaceName, h, hw, Json.string?]
    rw [hname]
    cases hw : (found?.getD []).lookup id with
    | none =>
      refine .own ?_
      intro table htable id' hid
      obtain rfl : found? = some table := htable
      cases hid
      exact hw
    | some w =>
      cases found? with
      | none => cases hw
      | some table => exact .named rfl rfl hw
  | _ =>
    refine .own ?_
    intro table _ id hid
    cases hid

theorem cell_workspaceColumn (record : Json) :
    cell d partNumberField? record workspaceColumn = workspaceName d (fieldValue record workspaceColumn) := by
  rw [cell, if_neg (by decide), if_pos rfl]

theorem cell_of_ne {column : String} (hworkspace : column ≠ workspaceColumn) (hproduct : column ≠ productColumn)
    (record : Json) : cell d partNumberField? record column = fieldValue record column := by
  rw [cell, if_neg hproduct, if_neg hworkspace]

theorem cell?_of_rows {t : Table} {records : List Json} (h : t.rows = rowsOf d partNumberField? t.columns records)
    (i j : Nat) : t.cell? i j =
      records[i]?.bind fun record => t.columns[j]?.map (cell d partNumberField? record) := by
  simp only [Table.cell?, h, rowsOf, List.getElem?_map, Option.bind_map, Function.comp_def]

theorem laidOut_of_rows {t : Table} {records : List Json} (h : t.rows = rowsOf d partNumberField? t.columns records)
    (hfound : workspaceColumn ∈ t.columns → d.workspaces = some (found?.getD [])) : LaidOut found? records t where
  rows := by rw [h, rowsOf, List.length_map]
  widths row hrow := by
    rw [h] at hrow
    obtain ⟨record, -, rfl⟩ := List.mem_map.1 hrow
    exact List.length_map _
  plain i j column hcolumn hworkspace hproduct := by
    rw [cell?_of_rows h, hcolumn]
    cases records[i]? with
    | none => rfl
    | some record => exact congrArg some (cell_of_ne hworkspace hproduct record)
  workspace i j record hrecord hcolumn := by
    have hshows := shows_workspaceName (hfound (List.mem_of_getElem? hcolumn)) (fieldValue record workspaceColumn)
    refine ⟨_, ?_, hshows, fun hnone => (hnone ▸ hshows).eq_own⟩
    rw [cell?_of_rows h, hrecord, hcolumn]
    exact congrArg some (cell_workspaceColumn record)

end

/-- The answers to the requests for a table. -/
def answersFor {ν : Type} (l : Lookup.Loading ν) (dialogue : List (Transport.Sent × Transport.Answer)) :
    List Transport.Answer :=
  (dialogue.filter fun x => x.1.request.path = l.request.path).map Prod.snd

/-- The workspaces that are found for a query. -/
def workspaces? (set : Setting) (remote : Transport.Remote σ) (q : Query) (locals : Template.Bindings)
    (state : State σ) : Option (Lookup.Table Lookup.Workspace) :=
  Lookup.Loading.workspaces.found? set.workspaces state.workspaces
    (answersFor Lookup.Loading.workspaces
      (remote.dialogue state.remote (run set remote q locals state).requests))

section
variable {ν : Type} {l : Lookup.Loading ν} {dialogue : List (Transport.Sent × Transport.Answer)}

theorem answersFor_append (l : Lookup.Loading ν) (xs ys : List (Transport.Sent × Transport.Answer)) :
    answersFor l (xs ++ ys) = answersFor l xs ++ answersFor l ys := by
  simp only [answersFor, List.filter_append, List.map_append]

theorem answersFor_eq_map (h : ∀ x ∈ dialogue, x.1.request = l.request) :
    answersFor l dialogue = dialogue.map Prod.snd := by
  rw [answersFor, List.filter_eq_self.2]
  intro x hx
  rw [h x hx]
  exact decide_eq_true rfl

theorem answersFor_eq_nil (h : ∀ x ∈ dialogue, x.1.request.path ≠ l.request.path) : answersFor l dialogue = [] := by
  rw [answersFor, List.filter_eq_nil_iff.2, List.map_nil]
  intro x hx
  rw [decide_eq_false (h x hx)]
  exact Bool.false_ne_true

end

/-- A table that is laid out takes its workspaces from the answers to its own requests. -/
theorem rows_present (set : Setting) (q : Query) (retrieved : Paging.Retrieved Json) (remote : Transport.Remote σ)
    (now : Nat) (state : State σ) :
    let shown := present set q retrieved remote now state
    let answers := answersFor Lookup.Loading.workspaces (remote.dialogue state.remote shown.2.1)
    ∃ decoration,
      shown.1.rows = rowsOf decoration set.service.partNumberField? shown.1.columns retrieved.records ∧
      (workspaceColumn ∈ shown.1.columns → decoration.workspaces =
        some ((Lookup.Loading.workspaces.found? set.workspaces state.workspaces answers).getD [])) := by
  intro shown answers
  obtain ⟨w, p, hw, hp, hwanted, hrows, -, hrest⟩ := present_eq set q retrieved remote now state
  refine ⟨_, hrows, ?_⟩
  intro hcolumn
  -- What is asked for products goes elsewhere, and its answers do not count.
  have hother : ∀ x ∈ remote.dialogue (remote.after state.remote ((w.map (·.requests)).getD []))
      ((p.map (·.requests)).getD []), x.1.request.path ≠ Lookup.Loading.workspaces.request.path := by
    intro x hx
    rw [hp.requests _ x hx]
    decide
  have hanswers : answers = (remote.dialogue state.remote ((w.map (·.requests)).getD [])).map Prod.snd := by
    simp only [answers, shown, hrest]
    rw [Transport.Remote.dialogue_append, answersFor_append, answersFor_eq_map (hw.requests _), answersFor_eq_nil hother,
      List.append_nil]
  rw [hanswers, hwanted hcolumn]
  exact congrArg some (Lookup.Loading.workspaces.table_obtain set.workspaces remote state.workspaces now state.remote)

/-- The requests for pages among those of a query. -/
def pagesAsked (s : Service) (sents : List Transport.Sent) : List Transport.Sent :=
  sents.filter fun x => x.request.path = s.endpoint

/-! A query that retrieves records. -/

section
variable {d : Domain} {set : Setting} {q : Query} {locals : Template.Bindings} {filter : String}
  {remote : Transport.Remote σ} {state : State σ} {retrieved : Paging.Retrieved Json}
  (hservice : set.service = d.service) (hfilter : set.filter? q.filter locals = .ok filter)
  (hretrieved : (retrieve set.service q filter remote state.remote).result = .ok retrieved)
include hservice hfilter hretrieved

/-- Its requests for pages are those that retrieve the records. -/
theorem pagesAsked_run : pagesAsked set.service (run set remote q locals state).requests =
    (retrieve set.service q filter remote state.remote).requests := by
  let r := retrieve set.service q filter remote state.remote
  let shown := present set q retrieved remote r.finish { state with remote := r.remote }
  have hpages : ∀ x ∈ r.requests, decide (x.request.path = set.service.endpoint) = true := by
    intro x hx
    exact decide_eq_true (requests_retrieve set.service q filter remote state.remote x hx).path
  have htables : ∀ x ∈ shown.2.1, ¬decide (x.request.path = set.service.endpoint) = true := by
    intro x hx hpath
    rw [hservice] at hpath
    exact not_asksForTable_of_path (of_decide_eq_true hpath) (requests_present _ _ _ _ _ _ x hx)
  rw [run_of_records hfilter hretrieved, pagesAsked, List.filter_append, List.filter_eq_self.2 hpages,
    List.filter_eq_nil_iff.2 htables, List.append_nil]

/-- The answers to them say nothing of workspaces. -/
theorem workspaces?_eq :
    let r := retrieve set.service q filter remote state.remote
    let shown := present set q retrieved remote r.finish { state with remote := r.remote }
    workspaces? set remote q locals state =
      Lookup.Loading.workspaces.found? set.workspaces state.workspaces
        (answersFor Lookup.Loading.workspaces (remote.dialogue r.remote shown.2.1)) := by
  intro r shown
  obtain ⟨-, hremote⟩ := told_retrieve set.service q filter remote state.remote
  have hpages : ∀ x ∈ remote.dialogue state.remote r.requests,
      x.1.request.path ≠ Lookup.Loading.workspaces.request.path := by
    intro x hx hpath
    have hendpoint : x.1.request.path = d.service.endpoint := hservice ▸ path_of_mem_dialogue hx
    exact not_asksForTable_of_path (hpath.symm.trans hendpoint) (.inl rfl)
  rw [workspaces?, run_of_records hfilter hretrieved, Transport.Remote.dialogue_append, answersFor_append,
    answersFor_eq_nil hpages, List.nil_append, ← hremote]

/-- It comes to a table of the records, decorated with the workspaces that are found for it. -/
theorem run_retrieved :
    let out := run set remote q locals state
    ∃ table, out.result = .ok table ∧ out.alerts = [] ∧ table.columns = columnsOf set.service q ∧
      table.total = retrieved.total ∧ LaidOut (workspaces? set remote q locals state) retrieved.records table := by
  intro out
  let r := retrieve set.service q filter remote state.remote
  let shown := present set q retrieved remote r.finish { state with remote := r.remote }
  have hout : out = ⟨.ok shown.1, r.requests ++ shown.2.1, [], shown.2.2⟩ := run_of_records hfilter hretrieved
  obtain ⟨decoration, hrows, hfound⟩ := rows_present set q retrieved remote r.finish { state with remote := r.remote }
  rw [hout, workspaces?_eq hservice hfilter hretrieved]
  exact ⟨shown.1, rfl, rfl, rfl, rfl, laidOut_of_rows hrows hfound⟩

end

/-- In each domain, two queries that differ in where their tables come from, each with the other side and the loaded
tables that it finds, where requests for pages are answered alike. They send the same alerts and the same requests for
pages, and fail alike or come to tables that differ in their names of workspaces and products at most: these have the
same columns, the same total and a row for each of the same records. A cell with a workspace shows the name that the
workspaces of its query give to the id in the record, or what the record holds; if no workspaces are found, it is always
the latter. -/
theorem run_alike (d : Domain) (set : Setting) (workspaces' : Lookup.Source Lookup.Workspace)
    (products'? : Option (Lookup.Source Lookup.Product)) (q : Query) (locals : Template.Bindings)
    {remote : Transport.Remote σ} {remote' : Transport.Remote σ'} (state : State σ) (state' : State σ')
    (halike : remote.AnswersAlike (·.path = d.service.endpoint) remote' state.remote state'.remote) :
    let set := { set with service := d.service }
    let set' := { set with workspaces := workspaces', products? := products'? }
    let out := run set remote q locals state
    let out' := run set' remote' q locals state'
    let found? := workspaces? set remote q locals state
    let found'? := workspaces? set' remote' q locals state'
    out.alerts = out'.alerts ∧ pagesAsked d.service out.requests = pagesAsked d.service out'.requests ∧
    match out.result, out'.result with
    | .error e, .error e' => e = e'
    | .ok t, .ok t' =>
      t.columns = t'.columns ∧ t.total = t'.total ∧ t.rows.length = t'.rows.length ∧
      (∀ i j, t.columns[j]? ≠ some workspaceColumn → t.columns[j]? ≠ some productColumn →
        t.cell? i j = t'.cell? i j) ∧
      ∃ filter retrieved, set.filter? q.filter locals = .ok filter ∧
        (retrieve d.service q filter remote state.remote).result = .ok retrieved ∧
        LaidOut found? retrieved.records t ∧ LaidOut found'? retrieved.records t'
    | _, _ => False := by
  intro set set' out out' found? found'?
  cases hfilter : set.filter? q.filter locals with
  | error fault =>
    have hfilter' : set'.filter? q.filter locals = .error fault := hfilter
    have hout : out = _ := run_of_fault hfilter remote state
    have hout' : out' = _ := run_of_fault hfilter' remote' state'
    rw [hout, hout']
    exact ⟨rfl, rfl, rfl⟩
  | ok filter =>
    have hfilter' : set'.filter? q.filter locals = .ok filter := hfilter
    obtain ⟨hrequests, hresult, -⟩ := retrieve_alike q filter halike
    cases hr : (retrieve d.service q filter remote state.remote).result with
    | error f =>
      have hr' : (retrieve d.service q filter remote' state'.remote).result = .error f := hresult ▸ hr
      have hout : out = _ := run_of_failure hfilter hr
      have hout' : out' = _ := run_of_failure hfilter' hr'
      rw [hout, hout']
      exact ⟨rfl, congrArg (pagesAsked d.service) hrequests, rfl⟩
    | ok retrieved =>
      have hr' : (retrieve d.service q filter remote' state'.remote).result = .ok retrieved := hresult ▸ hr
      obtain ⟨t, ht, halerts, hcolumns, htotal, hlaid⟩ := run_retrieved rfl hfilter hr
      obtain ⟨t', ht', halerts', hcolumns', htotal', hlaid'⟩ := run_retrieved rfl hfilter' hr'
      have hsame : t.columns = t'.columns := hcolumns.trans hcolumns'.symm
      refine ⟨halerts.trans halerts'.symm, ?_, ?_⟩
      · exact (pagesAsked_run rfl hfilter hr).trans (hrequests.trans (pagesAsked_run rfl hfilter' hr').symm)
      · rw [ht, ht']
        exact ⟨hsame, htotal.trans htotal'.symm, hlaid.rows.trans hlaid'.rows.symm,
          fun i j hworkspace hproduct => hlaid.cell?_eq hlaid' hsame hworkspace hproduct i,
          filter, retrieved, rfl, hr, hlaid, hlaid'⟩

/-- One alarm, where the look-up of workspaces takes too long in one query and brings a name in the other. -/
theorem run_alike_one_alarm :
    let page := Json.object [("alarms", .array [.object [("displayName", .string "Hot"), ("workspace", .string "7")]])]
    let names := Json.object [("workspaces", .array [.object [("id", .string "7"), ("name", .string "Berlin")]])]
    let remote (workspaces : Except Transport.Failure Json) : Transport.Remote Unit := fun _ sent =>
      (⟨0, if sent.request.path = Service.alarms.endpoint then .ok page else workspaces⟩, ())
    let set : Setting := { service := Service.alarms, now := 0 }
    let q : Query := { columns := ["displayName", "workspace"] }
    let out := run set (remote (.error .timedOut)) q [] { remote := () }
    let out' := run { set with products? := some (.known []) } (remote (.ok names)) q [] { remote := () }
    (remote (.error .timedOut)).AnswersAlike (·.path = Service.alarms.endpoint) (remote (.ok names)) () () ∧
    out.alerts = out'.alerts ∧ pagesAsked Service.alarms out.requests = pagesAsked Service.alarms out'.requests ∧
    ∃ t t', out.result = .ok t ∧ out'.result = .ok t' ∧ t.columns = t'.columns ∧ t.cell? 0 0 = t'.cell? 0 0 ∧
      t.cell? 0 1 = some (.string "7") ∧ t'.cell? 0 1 = some (.string "Berlin") := by
  intro page names remote set q out out'
  have halike : (remote (.error .timedOut)).AnswersAlike (·.path = Service.alarms.endpoint)
      (remote (.ok names)) () () := by
    intro sents hsents
    induction sents with
    | nil => rfl
    | cons sent sents ih =>
      obtain ⟨hsent, hrest⟩ := List.forall_mem_cons.1 hsents
      have hanswer : remote (.error .timedOut) () sent = remote (.ok names) () sent := by
        simp only [remote, if_pos hsent]
      rw [Transport.Remote.dialogue, Transport.Remote.dialogue, hanswer]
      exact congrArg _ (ih hrest)
  obtain ⟨halerts, hpages, hresult⟩ := run_alike .alarms set .remote (some (.known [])) q []
    { remote := () } { remote := () } halike
  obtain ⟨hcolumns, -, -, hcells, -⟩ := hresult
  exact ⟨halike, halerts, hpages, _, _, rfl, rfl, hcolumns, hcells 0 0 (by decide) (by decide), rfl, rfl⟩

end Query
end RecordSource
