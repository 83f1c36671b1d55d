import RecordSource.Field.Mapping
import RecordSource.Keyed

/-!
Catalogs of logical fields, and the severity thresholds of a domain. A field is found under its own name, or as a
property of the bag that its first part names.
-/
namespace RecordSource.Field
open RecordSource.Filter

/-- On this path, equality with the sentinel means at least the sentinel. -/
structure Threshold where
  path : String
  sentinel : String
  deriving DecidableEq, Repr

structure Catalog where
  fields : List (String × Mapping) := []
  thresholds : List Threshold := []

/-- What a field is found to be: a mapping, and for a property of a bag its key. -/
structure Target where
  mapping : Mapping
  key? : Option String
  deriving DecidableEq, Repr

namespace Catalog

/-- Adds a field; a field of that name is replaced. -/
def insert (c : Catalog) (name : String) (m : Mapping) : Catalog := { c with fields := Keyed.put name m c.fields }

def insertAll (c : Catalog) (names : List String) (mapping : String → Mapping) : Catalog :=
  names.foldl (fun c name => c.insert name (mapping name)) c

def addThreshold (c : Catalog) (path sentinel : String) : Catalog :=
  { c with thresholds := c.thresholds ++ [⟨path, sentinel⟩] }

def size (c : Catalog) : Nat := c.fields.length

/-- The part before the first dot of a name and the part after it. -/
def firstDot? : List Char → Option (List Char × List Char)
  | [] => none
  | c :: cs => if c = '.' then some ([], cs) else (firstDot? cs).map fun (a, b) => (c :: a, b)

/-- The field reaches into the physical path of a bag that goes by another name. -/
def reachesInto (path head field : String) : Bool :=
  path != head &&
    match Text.after? path.toList field.toList with
    | some (c :: _) => c == '.' || c == '['
    | _ => false

/-- Finds a field. What is already a backend path is no property of a bag: a key with an indexer is refused, and so
is a field under the bag's physical path. -/
def find? (c : Catalog) (field : String) : Option Target :=
  match c.fields.lookup field with
  | some m => some ⟨m, none⟩
  | none =>
    match firstDot? field.toList with
    | none => none
    | some (head, key) =>
      match c.fields.lookup (String.ofList head) with
      | some (.bag path) =>
        if key ≠ [] ∧ '[' ∉ key ∧ reachesInto path (String.ofList head) field = false then
          some ⟨.bag path, some (String.ofList key)⟩
        else none
      | _ => none

end Catalog

namespace Threshold

/-- The comparator that a threshold puts for another. -/
def comparator : Comparator → Comparator
  | .eq | .eqEq => .ge
  | .ne => .lt
  | op => op

def applies (rules : List Threshold) (field value : String) : Bool :=
  rules.any fun r => r.path == field && r.sentinel == value

def applyClause (rules : List Threshold) : Clause → Clause
  | .compare field op (.quoted value) =>
    .compare field (if applies rules field value then comparator op else op) (.quoted value)
  | c => c

mutual

/-- Puts the thresholds into an expression. -/
def apply (rules : List Threshold) : Expr → Expr
  | .or items => .or (applyAll rules items)
  | .and items => .and (applyAll rules items)
  | .not inner => .not (apply rules inner)
  | .group inner => .group (apply rules inner)
  | .clause c => .clause (applyClause rules c)

def applyAll (rules : List Threshold) : List Expr → List Expr
  | [] => []
  | e :: es => apply rules e :: applyAll rules es

end

theorem applyAll_eq_map (rules : List Threshold) (es : List Expr) :
    applyAll rules es = es.map (apply rules) := by
  induction es with
  | nil => rfl
  | cons e es ih => simp [applyAll, ih]

end Threshold
end RecordSource.Field
