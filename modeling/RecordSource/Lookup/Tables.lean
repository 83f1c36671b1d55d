import RecordSource.Json.Shape
import RecordSource.Keyed
import RecordSource.Lookup.Cache
import RecordSource.Query.Failure
import RecordSource.Transport.Call

/-!
The two tables that results are decorated with, workspaces and products, and how each is loaded.
-/
namespace RecordSource.Lookup

structure Workspace where
  id : String
  name : String
  isDefault : Bool := false
  enabled : Bool := true
  deriving DecidableEq, Repr

structure Product where
  partNumber : String
  name? : Option String := none
  deriving DecidableEq, Repr

namespace Workspace

def shape : Json.RecordShape :=
  ⟨"Workspace", [⟨"id", .text, false⟩, ⟨"name", .text, false⟩, ⟨"default", .flag, true⟩,
    ⟨"enabled", .flag, true⟩]⟩

def ofJson? (v : Json) : Except Json.Mismatch Workspace :=
  (shape.read v).map fun v =>
    ⟨v.textAt "id", v.textAt "name", v.flagAt "default" false, v.flagAt "enabled" true⟩

def toJson (w : Workspace) : Json :=
  .ofFields [("id", .string w.id), ("name", .string w.name), ("default", .bool w.isDefault),
    ("enabled", .bool w.enabled)]

end Workspace

namespace Product

def shape : Json.RecordShape := ⟨"Product", [⟨"partNumber", .text, false⟩, ⟨"name", .optionalText, true⟩]⟩

def ofJson? (v : Json) : Except Json.Mismatch Product :=
  (shape.read v).map fun v => ⟨v.textAt "partNumber", (v.field? "name").bind Json.string?⟩

def toJson (p : Product) : Json :=
  .ofFields [("partNumber", .string p.partNumber), ("name", (p.name?.map Json.string).getD .null)]

end Product

/-- A table by key. -/
abbrev Table (ν : Type) := List (String × ν)

/-- The table of some records; of two with one key the later stays. -/
def tableOf {ν : Type} (key : ν → String) (records : List ν) : Table ν :=
  Keyed.ofList (records.map fun r => (key r, r))

/-- What is loaded: under which name it is known, what is asked for, and how the answer is read. -/
structure Loading (ν : Type) where
  name : String
  request : Transport.Request
  recordsKey : String
  ofJson? : Json → Except Json.Mismatch ν
  key : ν → String

namespace Loading

def workspaces : Loading Workspace where
  name := "workspace"
  request := { path := "/niuser/v1/workspaces?take=1000" }
  recordsKey := "workspaces"
  ofJson? := Workspace.ofJson?
  key := Workspace.id

def products : Loading Product where
  name := "product"
  request := {
    path := "/nitestmonitor/v2/query-products"
    body? := some (.ofFields [("take", .ofNat 1000), ("returnCount", .bool false)]) }
  recordsKey := "products"
  ofJson? := Product.ofJson?
  key := Product.partNumber

/-- The table in an answer. -/
def read {ν : Type} (l : Loading ν) (body : Json) : Except Query.Malformed (Table ν) :=
  match body.field? l.recordsKey with
  | none => .error (.noTable l.recordsKey)
  | some list =>
    match (list.sequence?).bind fun items => items.mapM l.ofJson? with
    | .ok records => .ok (tableOf l.key records)
    | .error m => .error (.mismatch m)

end Loading

/-- Where a table comes from: it is known, or loaded by a call. -/
inductive Source (ν : Type) where
  | known (records : List ν)
  | remote

abbrev TableCache (ν : Type) := Cache Query.Failure (Table ν)

/-- What asking for a table did: the table, empty after a failure, with all that changed and was sent. -/
structure Obtained (σ ν : Type) where
  table : Table ν
  cache : TableCache ν
  requests : List Transport.Sent
  finish : Nat
  remote : σ

/-- Asks a cache for its table and waits for the load, which starts unless one is remembered. -/
def Loading.obtain {σ ν : Type} (l : Loading ν) (source : Source ν) (remote : Transport.Remote σ)
    (cache : TableCache ν) (now : Nat) (s : σ) : Obtained σ ν :=
  let isNew := cache.memo.isNone
  let (load, cache) := cache.bind
  let fetched : Except Query.Failure (Table ν) × List Transport.Sent × Nat × σ :=
    match source, isNew with
    | .known records, _ => (.ok (tableOf l.key records), [], now, s)
    | .remote, false => (.ok [], [], now, s)
    | .remote, true =>
      let sent : Transport.Sent := ⟨l.request, now⟩
      let (answer, s) := remote s sent
      let outcome := match answer.outcome with
        | .ok body => (l.read body).mapError .malformed
        | .error f => .error (.transport f)
      (outcome, [sent], now + answer.delay, s)
  let (outcome, requests, finish, s) := fetched
  let cache := if isNew then cache.settle load outcome else cache
  let (sight, cache) := cache.look Query.Failure.message load
  let table := match sight with
    | .table t => t
    | .waiting | .nothing => []
  ⟨table, cache, requests, finish, s⟩

end RecordSource.Lookup
