import RecordSource.Paging.Run
import RecordSource.Query.Failure
import RecordSource.Service.Catalogs

/-!
The record services: where each is asked, how its answers are laid out, how much may be asked of it and in which
words its failures are told.
-/
namespace RecordSource

/-- How a service lets a client walk through its records. -/
inductive Service.Walk where
  | cursor | offset
  deriving DecidableEq, Repr

structure Service where
  name : String
  endpoint : String
  recordsKey : String
  totalKey : String
  walk : Service.Walk
  limits : Paging.Limits
  /-- The records returned when a query names no number. -/
  defaultTake : Nat := 1000
  maxTake : Nat := 10000
  guidance : Transport.Guidance
  catalog : Field.Catalog
  columns : List String
  /-- The field of a record that holds a part number. -/
  partNumberField? : Option String := none

namespace Service

/-- The number of records a query gets. -/
def takeFor (s : Service) (requested : Option Nat) : Nat := min (requested.getD s.defaultTake) s.maxTake

theorem takeFor_le (s : Service) (requested : Option Nat) : s.takeFor requested ≤ s.maxTake :=
  Nat.min_le_right _ _

/-- The records in an answer; null stands for none. -/
def records? (s : Service) (body : Json) : Except Query.Malformed (List Json) :=
  match body with
  | .object fields =>
    match fields.lookup s.recordsKey with
    | some (.array items) => .ok items
    | some .null => .ok []
    | _ => .error (.noRecords s.recordsKey s.endpoint)
  | _ => .error (.notAnObject s.endpoint body)

/-- The total that an answer states. -/
def total? (s : Service) (body : Json) : Option Nat := (body.field? s.totalKey).bind Json.count?

def page? (s : Service) (body : Json) : Except Query.Malformed (Paging.Page Json) :=
  (s.records? body).map fun records =>
    { records, cursor := (body.field? "continuationToken").bind Json.string?, total := s.total? body }

def offsetPage? (s : Service) (body : Json) : Except Query.Malformed (Paging.OffsetPage Json) :=
  (s.records? body).map fun records => { records, total := s.total? body }

def alarms : Service where
  name := "alarms"
  endpoint := "/nialarm/v1/query-instances-with-filter"
  recordsKey := "alarms"
  totalKey := "totalCount"
  walk := .cursor
  limits := { pageTake := 1000, perSecond := 4 }
  guidance := { records := "alarms" }
  catalog := Catalogs.alarms
  columns := ["displayName", "currentSeverityLevel", "occurredAt", "active", "workspace"]

def results : Service where
  name := "results"
  endpoint := "/nitestmonitor/v2/query-results"
  recordsKey := "results"
  totalKey := "totalCount"
  walk := .cursor
  limits := { pageTake := 1000, perSecond := 6 }
  guidance := { records := "results" }
  catalog := Catalogs.results
  columns := ["programName", "status", "partNumber", "startedAt", "workspace"]
  partNumberField? := some "partNumber"

def steps : Service where
  name := "steps"
  endpoint := "/nitestmonitor/v2/query-steps"
  recordsKey := "steps"
  totalKey := "totalCount"
  walk := .cursor
  limits := { pageTake := 500, perSecond := 6 }
  guidance := { records := "steps" }
  catalog := Catalogs.steps
  columns := ["name", "stepType", "status", "startedAt", "totalTimeInSeconds"]

def systems : Service where
  name := "systems"
  endpoint := "/nisysmgmt/v1/query-systems"
  recordsKey := "data"
  totalKey := "count"
  walk := .offset
  limits := { pageTake := 1000, perSecond := 4 }
  guidance := {
    records := "systems"
    extra := [(401, "The query to fetch systems failed because the request was not authorized. " ++
      "Check the API key configured for the data source.")] }
  catalog := Catalogs.systems
  columns := ["id", "alias", "connectionStatus", "workspace"]

/-- What work orders and test plans say of refused requests. -/
def workItemRefusals : List (Nat × String) :=
  [(401, "The query failed because the request was not authorized. " ++
      "Check the API key configured for the data source."),
    (403, "The query failed because access to the requested workspace was denied.")]

def workOrders : Service where
  name := "work orders"
  endpoint := "/niworkorder/v1/query-workorders"
  recordsKey := "workOrders"
  totalKey := "totalCount"
  walk := .cursor
  limits := { pageTake := 500, perSecond := 6 }
  guidance := { records := "work orders", extra := workItemRefusals }
  catalog := Catalogs.workOrders
  columns := ["id", "name", "state", "dueDate", "workspace"]

def testPlans : Service where
  name := "test plans"
  endpoint := "/niworkorder/v1/query-testplans"
  recordsKey := "testPlans"
  totalKey := "totalCount"
  walk := .cursor
  limits := { pageTake := 500, perSecond := 6 }
  guidance := { records := "test plans", extra := workItemRefusals }
  catalog := Catalogs.testPlans
  columns := ["id", "name", "state", "partNumber", "workspace"]
  partNumberField? := some "partNumber"

end Service

inductive Domain where
  | alarms | results | steps | systems | workOrders | testPlans
  deriving DecidableEq, Repr

namespace Domain

def all : List Domain := [alarms, results, steps, systems, workOrders, testPlans]

def service : Domain → Service
  | alarms => Service.alarms
  | results => Service.results
  | steps => Service.steps
  | systems => Service.systems
  | workOrders => Service.workOrders
  | testPlans => Service.testPlans

/-- How a domain is named on the command line. -/
def word : Domain → String
  | alarms => "alarms"
  | results => "results"
  | steps => "steps"
  | systems => "systems"
  | workOrders => "work-orders"
  | testPlans => "test-plans"

def ofWord? (word : String) : Option Domain := all.find? fun d => d.word == word

theorem ofWord?_word (d : Domain) : ofWord? d.word = some d := by cases d <;> rfl

end Domain
end RecordSource
