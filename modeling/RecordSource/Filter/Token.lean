/-!
The tokens of a filter and how each is written. Names are written as they are; the text of a literal is
quoted, with the quote, the backslash and four control characters escaped.
-/
namespace RecordSource.Filter

/-- A comparison between a field and a value. -/
inductive Comparator where
  | eq | eqEq | ne | lt | le | gt | ge
  deriving DecidableEq, Repr

namespace Comparator

def spell : Comparator → List Char
  | eq => ['=']
  | eqEq => ['=', '=']
  | ne => ['!', '=']
  | lt => ['<']
  | le => ['<', '=']
  | gt => ['>']
  | ge => ['>', '=']

/-- The two spellings of equality. -/
def isEquality : Comparator → Bool
  | eq | eqEq => true
  | _ => false

theorem spell_injective {a b : Comparator} (h : a.spell = b.spell) : a = b := by
  cases a <;> cases b <;> first | rfl | exact absurd h (by decide)

end Comparator

inductive Token where
  | openParen | closeParen | comma | and | or | not
  | compare (op : Comparator)
  | literal (text : String)
  | name (text : String)
  deriving DecidableEq, Repr

namespace Token

/-- The characters of a name outside its indexers. -/
def isNameChar (c : Char) : Bool :=
  c.isAlphanum || c == '_' || c == '.' || c == '-' || c == '$' || c == '@'

/-- The character that a backslash and the given one stand for. -/
def unescape? : Char → Option Char
  | '"' => some '"'
  | '\\' => some '\\'
  | '\'' => some '\''
  | 't' => some '\t'
  | 'n' => some '\n'
  | 'r' => some '\r'
  | '0' => some '\x00'
  | _ => none

/-- How one character of a literal is written. -/
def escape : Char → List Char
  | '"' => ['\\', '"']
  | '\\' => ['\\', '\\']
  | '\t' => ['\\', 't']
  | '\n' => ['\\', 'n']
  | '\r' => ['\\', 'r']
  | '\x00' => ['\\', '0']
  | c => [c]

/-- A text as a literal, quotes included. -/
def quote (text : List Char) : List Char := '"' :: (text.flatMap escape ++ ['"'])

def spell : Token → List Char
  | openParen => ['(']
  | closeParen => [')']
  | comma => [',']
  | and => ['&', '&']
  | or => ['|', '|']
  | not => ['!']
  | compare op => op.spell
  | literal text => quote text.toList
  | name text => text.toList

end Token

/-- A token with the place it starts at, in bytes from the start of the text. -/
structure Placed where
  offset : Nat
  token : Token
  deriving DecidableEq, Repr

end RecordSource.Filter
