import RecordSource.Filter.Compiler
import RecordSource.Query.Table
import RecordSource.Service.Basic

/-!
Answering one query: its filter is prepared, the records are retrieved page by page, and the result is laid out as a
table. A failure is put in the words of the domain, reported once and returned; a table that cannot be looked up only
leaves a warning.
-/
namespace RecordSource

/-- What a person asks for. -/
structure Query where
  filter : String := ""
  orderBy? : Option String := none
  descending : Bool := false
  take? : Option Nat := none
  fetchAll : Bool := false
  returnCount : Bool := false
  columns : List String := []
  hide : Bool := false

namespace Query

/-- A hidden query is not to be run. -/
def shouldRun (q : Query) : Bool := !q.hide

/-- What queries are answered with. -/
structure Setting where
  service : Service
  scope : Template.Scope := {}
  now : Nat
  unknown : Filter.UnknownFields := .keep
  workspaces : Lookup.Source Lookup.Workspace := .remote
  products? : Option (Lookup.Source Lookup.Product) := none

structure Alert where
  title : String
  message : String
  deriving DecidableEq, Repr

/-- What stays from one query to the next: the other side of the calls and the loaded tables. -/
structure State (σ : Type) where
  remote : σ
  workspaces : Lookup.TableCache Lookup.Workspace := { name := Lookup.Loading.workspaces.name }
  products : Lookup.TableCache Lookup.Product := { name := Lookup.Loading.products.name }

/-- All that answering a query did. -/
structure Outcome (σ : Type) where
  result : Except Failure Table
  requests : List Transport.Sent
  alerts : List Alert
  state : State σ

variable {σ : Type}

namespace Setting

def compiler (s : Setting) : Filter.Compiler := ⟨s.service.catalog, s.now, s.unknown⟩

/-- The filter as it is sent if nothing keeps it from being sent. -/
def preview (s : Setting) (filter : String) (locals : Template.Bindings) : String :=
  s.compiler.prepare (s.scope.fill locals) filter

/-- The filter to send. Where unknown fields are refused, so are filters that cannot be read. -/
def filter? (s : Setting) (filter : String) (locals : Template.Bindings) : Except Filter.Fault String :=
  match s.unknown with
  | .keep => .ok (s.preview filter locals)
  | .refuse => s.compiler.prepare? (s.scope.fill locals) filter

end Setting

/-- The position of a page in a request: a cursor, if there is one, or an offset. -/
inductive Position where
  | cursor (c : Option String)
  | offset (n : Nat)
  deriving DecidableEq, Repr

namespace Position

def fields : Position → List (String × Json)
  | cursor none => []
  | cursor (some c) => [("continuationToken", .string c)]
  | offset n => [("skip", .ofNat n)]

end Position

/-- The body of a request for one page. An empty filter is left out. -/
def pageBody (q : Query) (filter : String) (take : Nat) (position : Position) : Json :=
  .ofFields (
    (if filter = "" then [] else [("filter", .string filter)]) ++
    (match q.orderBy? with
      | some key => [("orderBy", .string key), ("descending", .bool q.descending)]
      | none => []) ++
    [("take", .ofNat take)] ++ position.fields ++
    (if q.returnCount then [("returnCount", .bool true)] else []))

def pageRequest (s : Service) (q : Query) (filter : String) (take : Nat) (position : Position) : Transport.Request :=
  { path := s.endpoint, body? := some (pageBody q filter take position) }

/-- The pages of a service behind its remote side. -/
def pageServer {κ π : Type} (request : Paging.Call κ → Transport.Request)
    (read : Json → Except Malformed π) (remote : Transport.Remote σ) : Paging.Server σ κ Failure π :=
  fun state call =>
    let (answer, state) := remote state ⟨request call, call.start⟩
    let outcome := match answer.outcome with
      | .ok body => (read body).mapError .malformed
      | .error f => .error (.transport f)
    (⟨answer.delay, outcome⟩, state)

/-- The records of a query with the requests that brought them. -/
structure Retrieval (σ : Type) where
  requests : List Transport.Sent
  result : Except Failure (Paging.Retrieved Json)
  finish : Nat
  remote : σ

def Retrieval.ofRun {κ : Type} (request : Paging.Call κ → Transport.Request)
    (o : Paging.Outcome σ κ Failure Json) : Retrieval σ where
  requests := o.calls.map fun call => ⟨request call, call.start⟩
  result := o.result.mapError fun
    | .failed f => f
    | .endless pages => .endless pages
  finish := o.finish
  remote := o.server

/-- Retrieves the records of a query from time zero on. -/
def retrieve (s : Service) (q : Query) (filter : String) (remote : Transport.Remote σ) (state : σ) : Retrieval σ :=
  let target := if q.fetchAll then none else some (s.takeFor q.take?)
  match s.walk with
  | .cursor =>
    let request (call : Paging.Call (Option String)) := pageRequest s q filter call.take (.cursor call.position)
    .ofRun request (Paging.run s.limits target Paging.byCursor none (pageServer request s.page? remote) 0 state)
  | .offset =>
    let request (call : Paging.Call Nat) := pageRequest s q filter call.take (.offset call.position)
    .ofRun request (Paging.run s.limits target Paging.byOffset 0 (pageServer request s.offsetPage? remote) 0 state)

/-- A failed call is told in the words of the domain. -/
def Failure.told (s : Service) : Failure → Failure
  | .transport f => .diagnosed (s.guidance.diagnose f)
  | f => f

def alertOf (s : Service) (f : Failure) : Alert := ⟨"Error during " ++ s.name ++ " query", f.message⟩

/-- The columns of a query, or those of the domain. -/
def columnsOf (s : Service) (q : Query) : List String := if q.columns.isEmpty then s.columns else q.columns

/-- The columns are decorated with the tables they need, workspaces first. -/
def present (s : Setting) (q : Query) (retrieved : Paging.Retrieved Json) (remote : Transport.Remote σ) (now : Nat)
    (state : State σ) : Table × List Transport.Sent × State σ :=
  let columns := columnsOf s.service q
  let w := if workspaceColumn ∈ columns then
      some (Lookup.Loading.workspaces.obtain s.workspaces remote state.workspaces now state.remote)
    else none
  let now := (w.map (·.finish)).getD now
  let state := match w with
    | some w => { state with remote := w.remote, workspaces := w.cache }
    | none => state
  let p := if productColumn ∈ columns then
      s.products?.map fun source =>
        Lookup.Loading.products.obtain source remote state.products now state.remote
    else none
  let state := match p with
    | some p => { state with remote := p.remote, products := p.cache }
    | none => state
  let warnings := ((w.bind (·.cache.warning)).toList ++ (p.bind (·.cache.warning)).toList)
  let requests := ((w.map (·.requests)).getD [] ++ (p.map (·.requests)).getD [])
  let decoration : Decoration := ⟨w.map (·.table), p.map (·.table)⟩
  (⟨columns, rowsOf decoration s.service.partNumberField? columns retrieved.records, retrieved.total, warnings⟩,
    requests, state)

/-- Answers a query. -/
def run (s : Setting) (remote : Transport.Remote σ) (q : Query) (locals : Template.Bindings) (state : State σ) :
    Outcome σ :=
  match s.filter? q.filter locals with
  | .error fault =>
    let f := Failure.filter fault
    ⟨.error f, [], [alertOf s.service f], state⟩
  | .ok filter =>
    let r := retrieve s.service q filter remote state.remote
    let state := { state with remote := r.remote }
    match r.result with
    | .error f =>
      let f := f.told s.service
      ⟨.error f, r.requests, [alertOf s.service f], state⟩
    | .ok retrieved =>
      let (table, requests, state) := present s q retrieved remote r.finish state
      ⟨.ok table, r.requests ++ requests, [], state⟩

end Query
end RecordSource
