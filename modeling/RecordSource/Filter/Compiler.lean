import RecordSource.Field.Catalog
import RecordSource.Filter.Reading
import RecordSource.Filter.Render
import RecordSource.Template.Fill

/-!
Compiling a filter: every clause on a field of the catalog is replaced by what the field's mapping makes of it, then
the thresholds are put in. A filter that needs no change is returned as it was written.
-/
namespace RecordSource.Filter
open RecordSource.Field

/-- What becomes of a clause on a field that the catalog does not hold. -/
inductive UnknownFields where
  | keep | refuse
  deriving DecidableEq, Repr

/-- What a recognised clause asks of a field. -/
structure Demand where
  field : String
  op : Operator
  value : String
  bare : Bool := false
  deriving DecidableEq, Repr

/-- What a clause with a `!` before it asks. -/
def Demand.negated (d : Demand) : Demand := { d with op := d.op.negate }

/-- Recognised are comparisons, `field.Contains("value")` and `string.IsNullOrEmpty(field)`. -/
def Clause.demand? : Clause → Option Demand
  | .compare field op (.quoted value) => some ⟨field, .compare op, value, false⟩
  | .compare field op (.bare value) => some ⟨field, .compare op, value, true⟩
  | .call "string" "IsNullOrEmpty" [.bare field] => some { field, op := .isBlank, value := "" }
  | .call target "Contains" [.quoted value] =>
    if target = "" then none else some { field := target, op := .contains, value }
  | _ => none

structure Compiler where
  catalog : Catalog
  /-- The current instant, in milliseconds since 1970. -/
  now : Nat
  unknown : UnknownFields := .keep

namespace Compiler

/-- What a demand becomes, if anything. A bare value is left to flags. -/
def meet (c : Compiler) (d : Demand) : Except Fault (Option Expr) :=
  match c.catalog.find? d.field with
  | none => match c.unknown with
    | .keep => .ok none
    | .refuse => .error (.unknownField d.field)
  | some target =>
    if d.bare && !target.mapping.isFlag then .ok none
    else .ok (target.mapping.expand? target.key? (Time.stamp c.now) d.value d.op)

/-- Puts a replacement for an expression and tells whether that changes it. -/
def replaceBy (e : Expr) : Option Expr → Expr × Bool
  | some new => if new = e then (e, false) else (new, true)
  | none => (e, false)

/-- Meets the demand of a clause, if it makes one, in place of the expression around it. -/
def expandClause (c : Compiler) (around : Expr) (demand? : Option Demand) : Except Fault (Expr × Bool) :=
  match demand? with
  | some d => (c.meet d).map (replaceBy around)
  | none => .ok (around, false)

mutual

/-- Replaces every clause that has a mapping, and tells whether anything changed. A `!` before a call is one demand
together with the call. -/
def expand (c : Compiler) : Expr → Except Fault (Expr × Bool)
  | .or items => (expandAll c items).map fun (items, changed) => (.or items, changed)
  | .and items => (expandAll c items).map fun (items, changed) => (.and items, changed)
  | .group inner => (expand c inner).map fun (inner, changed) => (.group inner, changed)
  | .not (.clause (.call target method args)) =>
    let call := Clause.call target method args
    expandClause c (.not (.clause call)) (call.demand?.map Demand.negated)
  | .not inner => (expand c inner).map fun (inner, changed) => (.not inner, changed)
  | .clause clause => expandClause c (.clause clause) clause.demand?

def expandAll (c : Compiler) : List Expr → Except Fault (List Expr × Bool)
  | [] => .ok ([], false)
  | e :: es => (expand c e).bind fun (e, changed) =>
    (expandAll c es).map fun (es, others) => (e :: es, changed || others)

end

/-- Expands a parsed filter and puts the thresholds in: the new expression, and whether it differs. -/
def transform (c : Compiler) (e : Expr) : Except Fault (Expr × Bool) :=
  (c.expand e).map fun (expanded, changed) =>
    let final := Threshold.apply c.catalog.thresholds expanded
    (final, changed || final != expanded)

/-- The backend's form of a filter. -/
def compile (c : Compiler) (text : String) : Except Fault String :=
  (Expr.parse? text).bind fun e =>
    (c.transform e).map fun (final, changed) => if changed then final.render else text

/-- Fills the variables of a filter and compiles it; a blank filter stays empty. -/
def prepare? (c : Compiler) (fill : String → String) (filter : String) : Except Fault String :=
  if Text.allBlank filter.toList then .ok "" else c.compile (fill filter)

/-- As `prepare?`, but a filter that does not compile is sent as it is, its variables filled. -/
def prepare (c : Compiler) (fill : String → String) (filter : String) : String :=
  match c.prepare? fill filter with
  | .ok text => text
  | .error _ => fill filter

end Compiler
end RecordSource.Filter
