import RecordSource.Text.Cut
import RecordSource.Filter.Expr

/-!
Expressions as text: one space around comparators and connectives, literals quoted, parentheses exactly where
the tree holds a group.
-/
namespace RecordSource.Filter

def Operand.spell : Operand → List Char
  | quoted s => Token.quote s.toList
  | bare s => s.toList

@[simp] theorem Operand.spell_token (o : Operand) : o.token.spell = o.spell := by cases o <;> rfl

/-- The name that a call is written with. -/
def Clause.callName (target method : String) : List Char :=
  if target = "" then method.toList else target.toList ++ '.' :: method.toList

def Clause.spell : Clause → List Char
  | compare field op value => field.toList ++ ' ' :: (op.spell ++ ' ' :: value.spell)
  | call target method args =>
    callName target method ++ '(' :: (Text.joinWith [',', ' '] (args.map Operand.spell) ++ [')'])
  | term name => name.toList

namespace Expr

mutual

def spell : Expr → List Char
  | or items => spellAll [' ', '|', '|', ' '] items
  | and items => spellAll [' ', '&', '&', ' '] items
  | not inner => '!' :: spell inner
  | group inner => '(' :: (spell inner ++ [')'])
  | clause c => c.spell

/-- Items with a separator between any two of them. -/
def spellAll (sep : List Char) : List Expr → List Char
  | [] => []
  | [x] => spell x
  | x :: y :: xs => spell x ++ sep ++ spellAll sep (y :: xs)

end

theorem spellAll_eq (sep : List Char) (xs : List Expr) :
    spellAll sep xs = Text.joinWith sep (xs.map spell) := by
  match xs with
  | [] => simp [spellAll]
  | [x] => simp [spellAll]
  | x :: y :: xs => simp [spellAll, Text.joinWith, spellAll_eq sep (y :: xs)]

def render (e : Expr) : String := String.ofList e.spell

end Expr

example : (Expr.group (.or [.clause (.compare "f" .eq (.quoted "a")), .not (.clause (.term "b"))])).render
    = "(f = \"a\" || !b)" := by decide

end RecordSource.Filter
