import RecordSource.Json.Value

/-!
JSON as text: in one line without blanks, or over lines with two spaces a level. A real number is written with the
fewest digits that round to it.
-/
namespace RecordSource.Json

/-- Sixteen digits at most before the point and four zeros at most after it; beyond, a power of ten with its
sign. -/
def realText (x : Number.Binary64) : String :=
  let (d, power) := x.shortest
  let digits := if d = 0 then [] else Nat.toDigits 10 d
  let point : Int := digits.length + power
  let body : List Char :=
    if d = 0 then ['0', '.', '0']
    else if 0 ≤ power ∧ point ≤ 16 then digits ++ List.replicate power.natAbs '0' ++ ['.', '0']
    else if 0 < point ∧ point ≤ 16 then digits.take point.natAbs ++ '.' :: digits.drop point.natAbs
    else if -5 < point ∧ point ≤ 0 then '0' :: '.' :: (List.replicate point.natAbs '0' ++ digits)
    else
      let sign := if point ≤ 0 then '-' else '+'
      let mark := 'e' :: sign :: (toString (point - 1).natAbs).toList
      if digits.length = 1 then digits ++ mark else digits.take 1 ++ '.' :: (digits.drop 1 ++ mark)
  String.ofList (if x.negative then '-' :: body else body)

def Number.text : Number → String
  | whole n => toString n
  | real x => realText x

def hexDigit (n : Nat) : Char := if n < 10 then Char.ofNat (48 + n) else Char.ofNat (87 + n)

/-- How one character of a string is written. -/
def escape (c : Char) : List Char :=
  if c = '"' then ['\\', '"']
  else if c = '\\' then ['\\', '\\']
  else if c = '\x08' then ['\\', 'b']
  else if c = '\x0c' then ['\\', 'f']
  else if c = '\n' then ['\\', 'n']
  else if c = '\r' then ['\\', 'r']
  else if c = '\t' then ['\\', 't']
  else if c.toNat < 0x20 then ['\\', 'u', '0', '0', hexDigit (c.toNat / 16), hexDigit (c.toNat % 16)]
  else [c]

def quote (s : String) : String := String.ofList ('"' :: (s.toList.flatMap escape ++ ['"']))

mutual

/-- A value in one line. -/
def compact : Json → String
  | null => "null"
  | bool true => "true"
  | bool false => "false"
  | number n => n.text
  | string s => quote s
  | array items => "[" ++ String.intercalate "," (compactItems items) ++ "]"
  | object fields => "\x7b" ++ String.intercalate "," (compactFields fields) ++ "\x7d"

def compactItems : List Json → List String
  | [] => []
  | v :: vs => compact v :: compactItems vs

def compactFields : List (String × Json) → List String
  | [] => []
  | (k, v) :: fs => (quote k ++ ":" ++ compact v) :: compactFields fs

end

def newline (level : Nat) : String := "\n" ++ String.ofList (List.replicate (2 * level) ' ')

/-- Texts one a line, indented between brackets. -/
def block (level : Nat) (opening closing : String) : List String → String
  | [] => opening ++ closing
  | items => opening ++ newline (level + 1) ++ String.intercalate ("," ++ newline (level + 1)) items
      ++ newline level ++ closing

mutual

/-- A value over lines, the first one of the given level. -/
def pretty (level : Nat) : Json → String
  | array items => block level "[" "]" (prettyItems level items)
  | object fields => block level "\x7b" "\x7d" (prettyFields level fields)
  | null => "null"
  | bool true => "true"
  | bool false => "false"
  | number n => n.text
  | string s => quote s

def prettyItems (level : Nat) : List Json → List String
  | [] => []
  | v :: vs => pretty (level + 1) v :: prettyItems level vs

def prettyFields (level : Nat) : List (String × Json) → List String
  | [] => []
  | (k, v) :: fs => (quote k ++ ": " ++ pretty (level + 1) v) :: prettyFields level fs

end

end RecordSource.Json
