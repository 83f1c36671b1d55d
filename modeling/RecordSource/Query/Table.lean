import RecordSource.Lookup.Tables
import RecordSource.Paging.Page

/-!
Records laid out as a table. A cell holds a field of its record; workspaces are shown by name, and product names are
looked up by part number.
-/
namespace RecordSource.Query

structure Table where
  columns : List String
  rows : List (List Json)
  total : Option Nat := none
  warnings : List Lookup.Warning := []

def workspaceColumn : String := "workspace"

def productColumn : String := "productName"

/-- Walks down the fields that the keys name. -/
def descend? (v : Json) : List String → Option Json
  | [] => some v
  | k :: ks => (v.field? k).bind (descend? · ks)

/-- A field of a record: the one of that very name, else the one at the end of the dotted path, else null. -/
def fieldValue (record : Json) (path : String) : Json :=
  match record.field? path with
  | some v => v
  | none => (descend? record ((Text.pieces '.' path.toList).map String.ofList)).getD .null

/-- The tables that a result is decorated with, as far as they were asked for. -/
structure Decoration where
  workspaces : Option (Lookup.Table Lookup.Workspace) := none
  products : Option (Lookup.Table Lookup.Product) := none

/-- The name of the product whose part number the record holds. -/
def productName (d : Decoration) (partNumberField? : Option String) (record : Json) : Json :=
  let name? := do
    let part ← (← record.field? (← partNumberField?)).string?
    (← (← d.products).lookup part).name?
  (name?.map Json.string).getD .null

/-- The name of the workspace with the given id, or the value itself. -/
def workspaceName (d : Decoration) (value : Json) : Json :=
  let name? := do
    let id ← value.string?
    let w ← (← d.workspaces).lookup id
    return w.name
  (name?.map Json.string).getD value

def cell (d : Decoration) (partNumberField? : Option String) (record : Json) (column : String) : Json :=
  if column = productColumn then productName d partNumberField? record
  else if column = workspaceColumn then workspaceName d (fieldValue record column)
  else fieldValue record column

/-- The rows of a table, one for each record. -/
def rowsOf (d : Decoration) (partNumberField? : Option String) (columns : List String) (records : List Json) :
    List (List Json) :=
  records.map fun r => columns.map (cell d partNumberField? r)

def warningJson (w : Lookup.Warning) : Json :=
  .object [("title", .string w.title), ("description", .string w.description)]

/-- A table in JSON; without a total or warnings these are left out. -/
def Table.toJson (t : Table) : Json :=
  .object ([("columns", .array (t.columns.map .string)), ("rows", .array (t.rows.map .array))] ++
    Paging.optionalCount "totalCount" t.total ++
    (if t.warnings.isEmpty then [] else [("warnings", .array (t.warnings.map warningJson))]))

end RecordSource.Query
