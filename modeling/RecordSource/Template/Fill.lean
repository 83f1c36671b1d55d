import RecordSource.Text.Cut
import RecordSource.Time.Stamp

/-!
Template variables and how they are filled into a text, in one pass from left to right. A reference is `$name`, or a
name with an optional format in braces after `$`; what it is replaced by is not looked at again, and a reference without
a value stays as it is written. A variable with several values is filled in as one text in braces, from which the values
can be taken apart again.
-/
namespace RecordSource.Template

inductive Value where
  | one (text : String)
  | many (texts : List String)
  deriving DecidableEq, Repr

/-- The text that stands for a value; a single one of many stands for itself. -/
def Value.text : Value → String
  | one s => s
  | many [s] => s
  | many ss => String.ofList ('\x7b' :: (Text.joinWith [','] (ss.map String.toList) ++ ['\x7d']))

/-- Variables by name. Of two bindings of a name the first counts. -/
abbrev Bindings := List (String × Value)

/-- The value that a text with commas stands for: each piece is one of many. -/
def Value.ofText (text : String) : Value :=
  if ',' ∈ text.toList then many ((Text.pieces ',' text.toList).map String.ofList) else one text

/-- A name or format begins with the first and goes on with the second kind of character. -/
def startsName (c : Char) : Bool := c.isAlpha || c == '_'

def continuesName (c : Char) : Bool := c.isAlphanum || c == '_'

def continuesFormat (c : Char) : Bool := c.isAlphanum || c == '_'

/-- A variable referred to, with the spelling of the reference. -/
structure Reference where
  name : String
  format : Option String
  spelling : List Char
  deriving DecidableEq, Repr

namespace Reference

/-- The longest name at the front of a text, not empty, and the rest. -/
def name? : List Char → Option (List Char × List Char)
  | c :: cs =>
    if startsName c then some (c :: cs.takeWhile continuesName, cs.dropWhile continuesName) else none
  | [] => none

/-- What stands between the braces of a reference after its name: a closing brace, or a colon, a format and one. -/
def ending? : List Char → Option (Option (List Char))
  | '\x7d' :: _ => some none
  | ':' :: cs =>
    match cs.takeWhile continuesFormat, cs.dropWhile continuesFormat with
    | [], _ => none
    | format, '\x7d' :: _ => some (some format)
    | _, _ => none
  | _ => none

/-- The reference in braces after a `$`. -/
def braced? (cs : List Char) : Option Reference := do
  let (name, rest) ← name? cs
  let format ← ending? rest
  let inner := match format with
    | none => name
    | some f => name ++ ':' :: f
  return ⟨String.ofList name, format.map String.ofList, '$' :: '\x7b' :: (inner ++ ['\x7d'])⟩

/-- The reference after a `$`. -/
def read? : List Char → Option Reference
  | '\x7b' :: cs => braced? cs
  | cs => (name? cs).map fun (name, _) => ⟨String.ofList name, none, '$' :: name⟩

end Reference

/-- The instants that a dashboard shows records between, in milliseconds since 1970. -/
structure Range where
  start : Nat
  stop : Nat
  deriving DecidableEq, Repr

/-- What references are filled from. -/
structure Scope where
  globals : Bindings := []
  range : Option Range := none

namespace Scope

/-- The text of an instant under a format: milliseconds without one. -/
def instantText? (millis : Nat) : Option String → Option String
  | none => some (toString millis)
  | some format => if format = "date" ∨ format = "iso" then some (Time.stamp millis) else none

/-- The two references that name the ends of the range. -/
def bound? (s : Scope) (r : Reference) : Option String := do
  let range ← s.range
  if r.name = "__from" then instantText? range.start r.format
  else if r.name = "__to" then instantText? range.stop r.format
  else none

/-- The text for a reference: an end of the range, then a local binding, then a global one. -/
def lookup? (s : Scope) (locals : Bindings) (r : Reference) : Option String :=
  match s.bound? r with
  | some text => some text
  | none => ((locals.lookup r.name).or (s.globals.lookup r.name)).map Value.text

/-- Walks a text; the first argument counts the characters of a reference already replaced. -/
def fillFrom (s : Scope) (locals : Bindings) : Nat → List Char → List Char
  | _, [] => []
  | skip + 1, _ :: cs => fillFrom s locals skip cs
  | 0, c :: cs =>
    if c = '$' then
      match Reference.read? cs with
      | some r =>
        let text := match s.lookup? locals r with
          | some text => text.toList
          | none => r.spelling
        text ++ fillFrom s locals (r.spelling.length - 1) cs
      | none => c :: fillFrom s locals 0 cs
    else c :: fillFrom s locals 0 cs

/-- Fills every reference of a text. -/
def fill (s : Scope) (locals : Bindings) (text : String) : String :=
  String.ofList (fillFrom s locals 0 text.toList)

end Scope
end RecordSource.Template
