import RecordSource.Json.Token

/-!
Reading JSON. A reading holds the arrays and objects that are open; every token carries it on or refuses the text. No
more arrays and objects may be open at once than a limit allows. Why a text is refused is not told.
-/
namespace RecordSource.Json

/-- An array or object under way, its items the latest first. -/
inductive Frame where
  | array (items : List Json)
  | object (fields : List (String × Json)) (key : String)

/-- What may come next. -/
inductive Reading where
  | value (outer : List Frame)
  | valueOrClose (outer : List Frame)
  | keyOrClose (outer : List Frame)
  | key (fields : List (String × Json)) (outer : List Frame)
  | colon (fields : List (String × Json)) (key : String) (outer : List Frame)
  | separator (frame : Frame) (outer : List Frame)
  | finished (v : Json)

namespace Reading

/-- Puts a finished value where it belongs. -/
def finish (v : Json) : List Frame → Reading
  | [] => finished v
  | .array items :: outer => separator (.array (v :: items)) outer
  | .object fields k :: outer => separator (.object ((k, v) :: fields) k) outer

/-- How many arrays and objects may be open at once. -/
def maxDepth : Nat := 127

def start? (outer : List Frame) : Token → Option Reading
  | .openArray => if outer.length < maxDepth then some (valueOrClose outer) else none
  | .openObject => if outer.length < maxDepth then some (keyOrClose outer) else none
  | .null => some (finish .null outer)
  | .bool b => some (finish (.bool b) outer)
  | .number n => some (finish (.number n) outer)
  | .string s => some (finish (.string s) outer)
  | _ => none

def next? : Reading → Token → Option Reading
  | value outer, t => start? outer t
  | valueOrClose outer, .closeArray => some (finish (.array []) outer)
  | valueOrClose outer, t => start? (.array [] :: outer) t
  | keyOrClose outer, .closeObject => some (finish (.object []) outer)
  | keyOrClose outer, .string k => some (colon [] k outer)
  | key fields outer, .string k => some (colon fields k outer)
  | colon fields k outer, .colon => some (value (.object fields k :: outer))
  | separator (.array items) outer, .comma => some (value (.array items :: outer))
  | separator (.array items) outer, .closeArray => some (finish (.array items.reverse) outer)
  | separator (.object fields _) outer, .comma => some (key fields outer)
  | separator (.object fields _) outer, .closeObject => some (finish (ofFields fields.reverse) outer)
  | _, _ => none

def run? : Reading → List Token → Option Json
  | finished v, [] => some v
  | _, [] => none
  | r, t :: ts => (r.next? t).bind (run? · ts)

theorem run?_cons (r : Reading) (t : Token) (ts : List Token) : run? r (t :: ts) = (r.next? t).bind (run? · ts) := by
  cases r <;> rfl

end Reading

/-- The value that a text denotes. -/
def parse? (text : String) : Option Json :=
  (Token.scan text.toList).bind (Reading.run? (.value []))

end RecordSource.Json
