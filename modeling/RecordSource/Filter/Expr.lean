import RecordSource.Filter.Token

/-!
Filter expressions. The leaves are clauses that the backend decides; connectives, negations and written
parentheses stand over them. Equality of trees is decidable.
-/
namespace RecordSource.Filter

/-- What a field is compared with, or an argument of a call. -/
inductive Operand where
  | quoted (text : String)
  | bare (text : String)
  deriving DecidableEq, Repr

/-- The text, without quotes. -/
def Operand.text : Operand → String
  | quoted s | bare s => s

def Operand.token : Operand → Token
  | quoted s => .literal s
  | bare s => .name s

/-- A condition without connectives. The target of a call is empty for a free function. -/
inductive Clause where
  | compare (field : String) (op : Comparator) (value : Operand)
  | call (target method : String) (args : List Operand)
  | term (name : String)
  deriving DecidableEq, Repr

/-- `group` is a pair of written parentheses. -/
inductive Expr where
  | or (items : List Expr)
  | and (items : List Expr)
  | not (inner : Expr)
  | group (inner : Expr)
  | clause (c : Clause)
  deriving Repr

namespace Expr

mutual

def same : Expr → Expr → Bool
  | or xs, or ys => sameList xs ys
  | and xs, and ys => sameList xs ys
  | not x, not y => same x y
  | group x, group y => same x y
  | clause c, clause d => c == d
  | _, _ => false

def sameList : List Expr → List Expr → Bool
  | [], [] => true
  | x :: xs, y :: ys => same x y && sameList xs ys
  | _, _ => false

end

mutual

theorem same_iff : ∀ x y : Expr, same x y = true ↔ x = y
  | or xs, y => by cases y <;> simp [same, sameList_iff xs]
  | and xs, y => by cases y <;> simp [same, sameList_iff xs]
  | not x, y => by cases y <;> simp [same, same_iff x]
  | group x, y => by cases y <;> simp [same, same_iff x]
  | clause c, y => by cases y <;> simp [same]

theorem sameList_iff : ∀ xs ys : List Expr, sameList xs ys = true ↔ xs = ys
  | [], ys => by cases ys <;> simp [sameList]
  | x :: xs, ys => by cases ys <;> simp [sameList, same_iff x, sameList_iff xs]

end

instance : DecidableEq Expr := fun x y => decidable_of_iff _ (same_iff x y)

/-- Several expressions as alternatives; one stands for itself. -/
def anyOf : List Expr → Expr
  | [x] => x
  | xs => or xs

/-- Several expressions that all must hold; one stands for itself. -/
def allOf : List Expr → Expr
  | [x] => x
  | xs => and xs

@[simp] theorem anyOf_singleton (x : Expr) : anyOf [x] = x := rfl

@[simp] theorem allOf_singleton (x : Expr) : allOf [x] = x := rfl

end Expr

/-- How the clauses that one clause becomes hold together. -/
inductive Connective where
  | and | or
  deriving DecidableEq, Repr

/-- Terms under one connective, in parentheses if there are several. -/
def Connective.join? (k : Connective) : List Expr → Option Expr
  | [] => none
  | [x] => some x
  | xs => some (.group (match k with | .and => .and xs | .or => .or xs))

end RecordSource.Filter
