import RecordSource.Filter.Expr

/-!
What can be asked of a field, and the backend clause that asks it of one path and one value.
-/
namespace RecordSource.Field
open RecordSource.Filter

inductive Operator where
  | compare (op : Comparator)
  | contains | notContains | isBlank | isNotBlank
  deriving DecidableEq, Repr

namespace Operator

/-- How the clauses for several paths or values hold together: an operator that affirms wants one of them, any other
wants them all. -/
def connective : Operator → Connective
  | compare op => if op.isEquality then .or else .and
  | contains | isNotBlank => .or
  | notContains | isBlank => .and

/-- Blank checks look at no value. -/
def isBlankCheck : Operator → Bool
  | isBlank | isNotBlank => true
  | _ => false

/-- The operator that a `!` before a call asks for. -/
def negate : Operator → Operator
  | contains => notContains
  | isBlank => isNotBlank
  | op => op

def containsCall (path value : String) : Expr := .clause (.call path "Contains" [.quoted value])

def blankCall (path : String) : Expr := .clause (.call "string" "IsNullOrEmpty" [.bare path])

def clause (op : Operator) (path value : String) : Expr :=
  match op with
  | compare op => .clause (.compare path op (.quoted value))
  | contains => containsCall path value
  | notContains => .not (containsCall path value)
  | isBlank => blankCall path
  | isNotBlank => .not (blankCall path)

end Operator
end RecordSource.Field
