import RecordSource.Text.Classes
import RecordSource.Text.Cut
import RecordSource.Field.Operator

/-!
How a logical field stands for what the backend stores. A clause on the field expands into backend clauses: one for
each value of a text in braces, and for a field over several paths one such group per path. A mapping that does
not support an operator or value expands to nothing.
-/
namespace RecordSource.Field
open RecordSource.Filter

inductive Mapping where
  /-- Known, and written as it is. -/
  | verbatim
  | plain (path : String)
  /-- Instants; a token in the value stands for the current one. -/
  | time (path : String)
  | flag (path : String)
  | list (path : String)
  /-- One condition over several paths. -/
  | spread (paths : List String)
  /-- A bag of properties, each looked up by its key. -/
  | bag (path : String)
  deriving DecidableEq, Repr

def Mapping.isFlag : Mapping → Bool
  | flag _ => true
  | _ => false

/-- The values in a clause: the pieces of a text in braces, else the text itself. -/
def valuesOf (value : String) : List String :=
  match Text.inside? '\x7b' '\x7d' value.toList with
  | some (c :: cs) => (Text.pieces ',' (c :: cs)).map String.ofList
  | _ => [value]

/-- The token for the current instant. -/
def nowToken : String := "$\x7b__now:date\x7d"

/-- Puts an instant for every token. -/
def fillNow (now value : String) : String :=
  String.ofList (Text.replace nowToken.toList now.toList value.toList)

namespace Mapping

/-- One term for each value of a clause, under the connective of its operator. Nothing if a value has no term. -/
def perValue? (op : Operator) (value : String) (term? : String → Option Expr) : Option Expr :=
  if op.isBlankCheck then term? value
  else ((valuesOf value).mapM term?).bind op.connective.join?

def plain? (path value : String) (op : Operator) : Option Expr :=
  perValue? op value fun v => some (op.clause path v)

/-- The truth value a text names, whatever its case and the blanks around it. -/
def truth? (value : String) : Option String :=
  let word := (Text.trim value.toList).map Char.toLower
  if word = ['t', 'r', 'u', 'e'] then some "true"
  else if word = ['f', 'a', 'l', 's', 'e'] then some "false"
  else none

def equalsCall (path truth : String) : Expr := .clause (.call path "Equals" [.bare truth])

/-- A flag supports equality and its negation with a truth value. -/
def flag? (path value : String) (op : Operator) : Option Expr :=
  match op with
  | .compare c =>
    if c = .ne then perValue? op value fun v => (truth? v).map fun t => .not (equalsCall path t)
    else if c.isEquality then perValue? op value fun v => (truth? v).map (equalsCall path)
    else none
  | _ => none

/-- A list is asked whether it contains a value, in whatever way that is put. -/
def list? (path value : String) (op : Operator) : Option Expr :=
  match op with
  | .compare c =>
    if c.isEquality then plain? path value .contains
    else if c = .ne then plain? path value .notContains
    else none
  | .contains | .notContains => plain? path value op
  | .isBlank | .isNotBlank => none

def spread? (paths : List String) (value : String) (op : Operator) : Option Expr :=
  (paths.mapM fun path => plain? path value op).bind op.connective.join?

/-- A key inside quotes. -/
def escapeKey (key : List Char) : List Char :=
  key.flatMap fun c => if c = '\\' ∨ c = '"' then ['\\', c] else [c]

/-- The path of one property of a bag. -/
def keyPath (path key : String) : String :=
  String.ofList (path.toList ++ '[' :: '"' :: (escapeKey key.toList ++ ['"', ']']))

/-- What a clause on a field becomes. A bag needs a key; all other mappings have none. -/
def expand? (m : Mapping) (key? : Option String) (now value : String) (op : Operator) : Option Expr :=
  match m, key? with
  | plain path, none => plain? path value op
  | time path, none => plain? path (fillNow now value) op
  | flag path, none => flag? path value op
  | list path, none => list? path value op
  | spread paths, none => spread? paths value op
  | bag path, some key => plain? (keyPath path key) value op
  | _, _ => none

end Mapping
end RecordSource.Field
