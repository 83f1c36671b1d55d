import RecordSource.Proofs.Filter.Grammar

/-!
Trees with their quoted texts replaced. A derivation looks at what kind of token stands where and at names, not at the
texts of literals, so replacing these in the tokens replaces them in the tree.
-/
namespace RecordSource.Filter

/-- A token with the text of a literal replaced. -/
def Token.mapLiteral (f : String → String) : Token → Token
  | literal text => literal (f text)
  | t => t

def Operand.mapQuoted (f : String → String) : Operand → Operand
  | quoted s => quoted (f s)
  | bare s => bare s

def Clause.mapQuoted (f : String → String) : Clause → Clause
  | compare field op v => compare field op (v.mapQuoted f)
  | call target method args => call target method (args.map (Operand.mapQuoted f))
  | term n => term n

namespace Expr

mutual

/-- The tree with each quoted text replaced. -/
def mapQuoted (f : String → String) : Expr → Expr
  | or items => or (mapQuotedAll f items)
  | and items => and (mapQuotedAll f items)
  | not inner => not (mapQuoted f inner)
  | group inner => group (mapQuoted f inner)
  | clause c => clause (c.mapQuoted f)

def mapQuotedAll (f : String → String) : List Expr → List Expr
  | [] => []
  | e :: es => mapQuoted f e :: mapQuotedAll f es

end

theorem mapQuotedAll_eq (f : String → String) (es : List Expr) : mapQuotedAll f es = es.map (mapQuoted f) := by
  induction es with
  | nil => rfl
  | cons e es ih => rw [mapQuotedAll, ih, List.map_cons]

theorem mapQuoted_allOf (f : String → String) (es : List Expr) :
    (allOf es).mapQuoted f = allOf (es.map (mapQuoted f)) := by
  match es with
  | [] => rfl
  | [e] => rfl
  | e :: e' :: es => rw [allOf.eq_2 _ (by simp), mapQuoted, mapQuotedAll_eq]; rfl

theorem mapQuoted_anyOf (f : String → String) (es : List Expr) :
    (anyOf es).mapQuoted f = anyOf (es.map (mapQuoted f)) := by
  match es with
  | [] => rfl
  | [e] => rfl
  | e :: e' :: es => rw [anyOf.eq_2 _ (by simp), mapQuoted, mapQuotedAll_eq]; rfl

end Expr

theorem Clause.mapQuoted_callOf (f : String → String) (name : String) (args : List Operand) :
    (Reading.callOf name args).mapQuoted f = Reading.callOf name (args.map (Operand.mapQuoted f)) := by
  unfold Reading.callOf
  split <;> rfl

def Phrase.mapQuoted (f : String → String) : Phrase → Phrase
  | operand v => operand (v.mapQuoted f)
  | arguments vs => arguments (vs.map (Operand.mapQuoted f))
  | clause c => clause (c.mapQuoted f)
  | primary e => primary (e.mapQuoted f)
  | unary e => unary (e.mapQuoted f)
  | conjuncts es => conjuncts (es.map (Expr.mapQuoted f))
  | conjunction e => conjunction (e.mapQuoted f)
  | disjuncts es => disjuncts (es.map (Expr.mapQuoted f))
  | disjunction e => disjunction (e.mapQuoted f)

/-- A derivation does not look at the texts of literals. -/
theorem Derives.mapQuoted (f : String → String) {ts : List Token} {p : Phrase} (h : Derives ts p) :
    Derives (ts.map (Token.mapLiteral f)) (p.mapQuoted f) := by
  induction h with
  | literal => exact .literal
  | name => exact .name
  | argument _ ih => exact .argument ih
  | moreArguments _ _ ih ihs =>
    rw [List.map_append, List.map_cons]
    exact .moreArguments ih ihs
  | comparison _ ih => exact .comparison ih
  | emptyCall =>
    rw [Phrase.mapQuoted, Clause.mapQuoted_callOf]
    exact .emptyCall
  | call _ ih =>
    rw [Phrase.mapQuoted, Clause.mapQuoted_callOf, List.map_cons, List.map_cons, List.map_append]
    exact .call ih
  | term => exact .term
  | parentheses _ ih =>
    rw [List.map_cons, List.map_append]
    exact .parentheses ih
  | clause _ ih => exact .clause ih
  | not _ ih => exact .not ih
  | primary _ ih => exact .primary ih
  | conjunct _ ih => exact .conjunct ih
  | moreConjuncts _ _ ih ihs =>
    rw [List.map_append, List.map_cons]
    exact .moreConjuncts ih ihs
  | conjunction _ ih =>
    rw [Phrase.mapQuoted, Expr.mapQuoted_allOf]
    exact .conjunction ih
  | disjunct _ ih => exact .disjunct ih
  | moreDisjuncts _ _ ih ihs =>
    rw [List.map_append, List.map_cons]
    exact .moreDisjuncts ih ihs
  | disjunction _ ih =>
    rw [Phrase.mapQuoted, Expr.mapQuoted_anyOf]
    exact .disjunction ih

end RecordSource.Filter
