import Mathlib.Algebra.Group.Nat.Defs
import RecordSource.Json.Token

/-!
The grammar of JSON: which texts denote which values, told without a reader. A text is a row of tokens with blanks
around them, and a value is derived from the tokens. A number that is no whole one of 64 bits is a real number of its
sign. How numerals are rounded to real numbers, and which are too large for it, is given.
-/
namespace RecordSource.Json

/-- A part of a value, with what it stands for. -/
inductive Phrase where
  | value (v : Json)
  | items (vs : List Json)
  | fields (fs : List (String × Json))

/-- The tokens of a phrase, in which arrays and objects are nested at most so deep. -/
inductive Derives : Nat → List Token → Phrase → Prop
  | null {n} : Derives n [.null] (.value .null)
  | bool {n} {b : Bool} : Derives n [.bool b] (.value (.bool b))
  | number {n} {x : Number} : Derives n [.number x] (.value (.number x))
  | string {n} {s : String} : Derives n [.string s] (.value (.string s))
  | emptyArray {n} : Derives (n + 1) [.openArray, .closeArray] (.value (.array []))
  | array {n ts vs} (h : Derives n ts (.items vs)) :
    Derives (n + 1) (.openArray :: (ts ++ [.closeArray])) (.value (.array vs))
  | emptyObject {n} : Derives (n + 1) [.openObject, .closeObject] (.value (.object []))
  | object {n ts fs} (h : Derives n ts (.fields fs)) :
    Derives (n + 1) (.openObject :: (ts ++ [.closeObject])) (.value (ofFields fs))
  | item {n ts v} (h : Derives n ts (.value v)) : Derives n ts (.items [v])
  | moreItems {n ts us vs v} (h : Derives n ts (.items vs)) (last : Derives n us (.value v)) :
    Derives n (ts ++ .comma :: us) (.items (vs ++ [v]))
  | field {n k ts v} (h : Derives n ts (.value v)) : Derives n (.string k :: .colon :: ts) (.fields [(k, v)])
  | moreFields {n ts us fs k v} (h : Derives n ts (.fields fs)) (last : Derives n us (.value v)) :
    Derives n (ts ++ .comma :: .string k :: .colon :: us) (.fields (fs ++ [(k, v)]))

/-! Strings. -/

/-- The escapes of one letter, with the characters that they stand for. -/
def escapes : List (Char × Char) :=
  [('"', '"'), ('\\', '\\'), ('/', '/'), ('b', '\x08'), ('f', '\x0c'), ('n', '\n'), ('r', '\r'), ('t', '\t')]

/-- A hexadecimal digit in either case. -/
def IsHexDigit (c : Char) (n : Nat) : Prop := n < 16 ∧ (c = n.digitChar ∨ c = n.digitChar.toUpper)

instance (c : Char) (n : Nat) : Decidable (IsHexDigit c n) := inferInstanceAs (Decidable (_ ∧ _))

/-- A backslash, a `u` and four hexadecimal digits, which name a code unit. -/
inductive IsUnit : List Char → Nat → Prop
  | mk {a b c d : Char} {i j k l : Nat} (ha : IsHexDigit a i) (hb : IsHexDigit b j) (hc : IsHexDigit c k)
    (hd : IsHexDigit d l) : IsUnit ['\\', 'u', a, b, c, d] (((i * 16 + j) * 16 + k) * 16 + l)

def IsHighSurrogate (n : Nat) : Prop := 0xd800 ≤ n ∧ n < 0xdc00

def IsLowSurrogate (n : Nat) : Prop := 0xdc00 ≤ n ∧ n < 0xe000

/-- What stands for one character within a string. -/
inductive Spells : List Char → Char → Prop
  | plain {c : Char} (h : c ≠ '"' ∧ c ≠ '\\' ∧ 0x20 ≤ c.toNat) : Spells [c] c
  | escape {e c : Char} (h : (e, c) ∈ escapes) : Spells ['\\', e] c
  | unit {cs : List Char} {n : Nat} (h : IsUnit cs n) (hhigh : ¬IsHighSurrogate n) (hlow : ¬IsLowSurrogate n) :
    Spells cs (Char.ofNat n)
  | pair {cs ds : List Char} {m n : Nat} (hm : IsUnit cs m) (hn : IsUnit ds n) (hhigh : IsHighSurrogate m)
    (hlow : IsLowSurrogate n) : Spells (cs ++ ds) (Char.ofNat (0x10000 + (m - 0xd800) * 0x400 + (n - 0xdc00)))

/-- What stands between the quotes of a string. -/
inductive SpellsAll : List Char → List Char → Prop
  | nil : SpellsAll [] []
  | cons {cs ds text : List Char} {c : Char} (h : Spells cs c) (more : SpellsAll ds text) :
    SpellsAll (cs ++ ds) (c :: text)

/-! Numbers. -/

def IsDigits (cs : List Char) : Prop := cs ≠ [] ∧ ∀ c ∈ cs, c.isDigit = true

/-- Digits without a needless zero at the front. -/
def IsInteger (cs : List Char) : Prop := IsDigits cs ∧ (cs.head? = some '0' → cs = ['0'])

def IsFraction (cs : List Char) : Prop := cs = [] ∨ ∃ ds, IsDigits ds ∧ cs = '.' :: ds

def IsExponent (cs : List Char) : Prop :=
  cs = [] ∨ ∃ e sign ds, (e = 'e' ∨ e = 'E') ∧ (sign = [] ∨ sign = ['+'] ∨ sign = ['-']) ∧ IsDigits ds ∧
    cs = e :: (sign ++ ds)

def signOf (negative : Bool) : List Char := if negative then ['-'] else []

/-- The whole number of 64 bits with a sign and a magnitude. Zero has no sign. -/
inductive IsWhole : Bool → Nat → Int → Prop
  | natural {n : Nat} (h : n < 2 ^ 64) : IsWhole false n n
  | negative {n : Nat} (h : 0 < n ∧ n ≤ 2 ^ 63) : IsWhole true n (-n)

section
variable (round : List Char → Option Number.Binary64)

inductive IsNumeral : List Char → Number → Prop
  | whole {negative ds n} (hds : IsInteger ds) (h : IsWhole negative (Nat.ofDigitChars 10 ds 0) n) :
    IsNumeral (signOf negative ++ ds) (.whole n)
  | real {negative ds fs es x} (hds : IsInteger ds) (hfs : IsFraction fs) (hes : IsExponent es)
    (h : fs = [] → es = [] → ∀ n, ¬IsWhole negative (Nat.ofDigitChars 10 ds 0) n)
    (hround : round (signOf negative ++ (ds ++ (fs ++ es))) = some x) (hsign : x.negative = negative) :
    IsNumeral (signOf negative ++ (ds ++ (fs ++ es))) (.real x)

/-! Texts. -/

/-- How a token is written, if always alike. -/
def Token.word? : Token → Option String
  | openArray => "["
  | closeArray => "]"
  | openObject => "\x7b"
  | closeObject => "\x7d"
  | comma => ","
  | colon => ":"
  | null => "null"
  | bool true => "true"
  | bool false => "false"
  | number _ | string _ => none

inductive Token.IsWritten : List Char → Token → Prop
  | word {t : Token} {s : String} (h : t.word? = some s) : IsWritten s.toList t
  | number {cs : List Char} {n : Number} (h : IsNumeral round cs n) : IsWritten cs (.number n)
  | string {cs text : List Char} (h : SpellsAll cs text) :
    IsWritten ('"' :: (cs ++ ['"'])) (.string (String.ofList text))

/-- A text of tokens, with any blanks around each. -/
inductive IsText : List Char → List Token → Prop
  | nil : IsText [] []
  | blank {c cs ts} (h : c ∈ [' ', '\t', '\n', '\r']) (more : IsText cs ts) : IsText (c :: cs) ts
  | token {cs ds t ts} (h : Token.IsWritten round cs t) (more : IsText ds ts) : IsText (cs ++ ds) (t :: ts)

/-- A text is JSON with at most so many arrays and objects open at once, and this is its value. -/
def Denotes (depth : Nat) (text : String) (v : Json) : Prop :=
  ∃ ts, IsText round text.toList ts ∧ Derives depth ts (.value v)

end

end RecordSource.Json
