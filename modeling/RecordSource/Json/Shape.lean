import RecordSource.Json.Print
import RecordSource.Text.Quoted

/-!
Shapes of records in JSON. A record is an object with its fields under their keys, or an array of them in order.
What does not fit is told by the first mismatch: the fields of an object are looked at in the order of their keys, and
absent ones after all that are there.
-/
namespace RecordSource.Json

/-- What a field holds. -/
inductive Kind where
  | sequence
  | text
  | flag
  | optionalText
  | optionalCount
  deriving DecidableEq, Repr

def Kind.noun : Kind → String
  | sequence => "a sequence"
  | text | optionalText => "a string"
  | flag => "a boolean"
  | optionalCount => "u64"

/-- One field of a record, which may be left out if it has a default. -/
structure FieldShape where
  key : String
  kind : Kind
  hasDefault : Bool
  deriving DecidableEq, Repr

structure RecordShape where
  name : String
  fields : List FieldShape

/-- Why a value has not the wanted shape. -/
inductive Mismatch where
  | missing (key : String)
  | wrongType (got : Json) (want : String)
  | wrongValue (got : Json) (want : String)
  | tooFew (length : Nat) (record : String) (fields : Nat)
  | tooMany (length : Nat)
  deriving Repr

/-- A value in a few words. -/
def describe : Json → String
  | null => "null"
  | bool b => "boolean `" ++ (bool b).compact ++ "`"
  | number (.whole n) => "integer `" ++ toString n ++ "`"
  | number (.real x) => "floating point `" ++ realText x ++ "`"
  | string s => "string " ++ Text.quoted s
  | array _ => "sequence"
  | object _ => "map"

def Mismatch.message : Mismatch → String
  | missing key => "missing field `" ++ key ++ "`"
  | wrongType got want => "invalid type: " ++ got.describe ++ ", expected " ++ want
  | wrongValue got want => "invalid value: " ++ got.describe ++ ", expected " ++ want
  | tooFew length record fields =>
    "invalid length " ++ toString length ++ ", expected struct " ++ record ++ " with " ++
      toString fields ++ " elements"
  | tooMany length => "invalid length " ++ toString length ++ ", expected fewer elements in array"

/-- Why a value is none of a kind, if it is not. -/
def Kind.mismatch? : Kind → Json → Option Mismatch
  | sequence, .array _ => none
  | text, .string _ => none
  | flag, .bool _ => none
  | optionalText, .string _ | optionalText, .null => none
  | optionalCount, .null => none
  | optionalCount, .number (.whole n) =>
    if 0 ≤ n then none else some (.wrongValue (.number (.whole n)) optionalCount.noun)
  | kind, v => some (.wrongType v kind.noun)

namespace RecordShape

def mismatchAt? (r : RecordShape) (key : String) (v : Json) : Option Mismatch :=
  (r.fields.find? (·.key == key)).bind (·.kind.mismatch? v)

/-- The items of an array under the keys of the fields, in their order. -/
def ofItems (r : RecordShape) (length : Nat) : List FieldShape → List Json → Except Mismatch (List (String × Json))
  | [], [] => .ok []
  | [], _ :: _ => .error (.tooMany length)
  | f :: fs, [] => if f.hasDefault then ofItems r length fs [] else .error (.tooFew length r.name r.fields.length)
  | f :: fs, v :: vs => match f.kind.mismatch? v with
    | some m => .error m
    | none => (ofItems r length fs vs).map ((f.key, v) :: ·)

/-- The fields of a record as an object, with all that have no default. -/
def read (r : RecordShape) (v : Json) : Except Mismatch Json :=
  match v with
  | .object fields =>
    match fields.findSome? fun (k, v) => r.mismatchAt? k v with
    | some m => .error m
    | none =>
      match r.fields.find? fun f => !f.hasDefault && (fields.lookup f.key).isNone with
      | some f => .error (.missing f.key)
      | none => .ok (.object fields)
  | .array items => (ofItems r items.length r.fields items).map .ofFields
  | v => .error (.wrongType v ("struct " ++ r.name))

end RecordShape

/-- The text of a field that always has one. -/
def textAt (v : Json) (key : String) : String := ((v.field? key).bind string?).getD ""

/-- The flag of a field, or its default. -/
def flagAt (v : Json) (key : String) (absent : Bool) : Bool :=
  match v.field? key with
  | some (.bool b) => b
  | _ => absent

/-- The items of a field that always is a sequence. -/
def itemsAt (v : Json) (key : String) : List Json :=
  match v.field? key with
  | some (.array items) => items
  | _ => []

/-- The items of a sequence. -/
def sequence? : Json → Except Mismatch (List Json)
  | .array items => .ok items
  | v => .error (.wrongType v Kind.sequence.noun)

end RecordSource.Json
