import RecordSource.Filter.Reading

/-!
The grammar of filters as derivations of trees from token sequences. A phrase is a nonterminal together with what it
stands for; chains of `&&` and `||` stand for the list of their parts, and one part alone stands for itself.
-/
namespace RecordSource.Filter

/-- A nonterminal of the grammar with its tree. -/
inductive Phrase where
  | operand (v : Operand)
  | arguments (vs : List Operand)
  | clause (c : Clause)
  | primary (e : Expr)
  | unary (e : Expr)
  | conjuncts (es : List Expr)
  | conjunction (e : Expr)
  | disjuncts (es : List Expr)
  | disjunction (e : Expr)

inductive Derives : List Token → Phrase → Prop
  | literal {s : String} : Derives [.literal s] (.operand (.quoted s))
  | name {s : String} : Derives [.name s] (.operand (.bare s))
  | argument {ts v} (h : Derives ts (.operand v)) : Derives ts (.arguments [v])
  | moreArguments {ts us v vs} (h : Derives ts (.operand v)) (more : Derives us (.arguments vs)) :
    Derives (ts ++ .comma :: us) (.arguments (v :: vs))
  | comparison {field : String} {op : Comparator} {ts v} (h : Derives ts (.operand v)) :
    Derives (.name field :: .compare op :: ts) (.clause (.compare field op v))
  | emptyCall {n : String} : Derives [.name n, .openParen, .closeParen] (.clause (Reading.callOf n []))
  | call {n : String} {ts vs} (h : Derives ts (.arguments vs)) :
    Derives (.name n :: .openParen :: (ts ++ [.closeParen])) (.clause (Reading.callOf n vs))
  | term {n : String} : Derives [.name n] (.clause (.term n))
  | parentheses {ts e} (h : Derives ts (.disjunction e)) :
    Derives (.openParen :: (ts ++ [.closeParen])) (.primary (.group e))
  | clause {ts c} (h : Derives ts (.clause c)) : Derives ts (.primary (.clause c))
  | not {ts e} (h : Derives ts (.unary e)) : Derives (.not :: ts) (.unary (.not e))
  | primary {ts e} (h : Derives ts (.primary e)) : Derives ts (.unary e)
  | conjunct {ts e} (h : Derives ts (.unary e)) : Derives ts (.conjuncts [e])
  | moreConjuncts {ts us e es} (h : Derives ts (.unary e)) (more : Derives us (.conjuncts es)) :
    Derives (ts ++ .and :: us) (.conjuncts (e :: es))
  | conjunction {ts es} (h : Derives ts (.conjuncts es)) : Derives ts (.conjunction (Expr.allOf es))
  | disjunct {ts e} (h : Derives ts (.conjunction e)) : Derives ts (.disjuncts [e])
  | moreDisjuncts {ts us e es} (h : Derives ts (.conjunction e)) (more : Derives us (.disjuncts es)) :
    Derives (ts ++ .or :: us) (.disjuncts (e :: es))
  | disjunction {ts es} (h : Derives ts (.disjuncts es)) : Derives ts (.disjunction (Expr.anyOf es))

/-- The parts of a chain that goes on, each with the separator after it. -/
inductive Followed {α : Type} (sep : Token) (part : α → Phrase) : List Token → List α → Prop
  | nil : Followed sep part [] []
  | cons {ts us x xs} (h : Derives ts (part x)) (more : Followed sep part us xs) :
    Followed sep part (ts ++ sep :: us) (x :: xs)

namespace Followed
variable {α : Type} {sep : Token} {part : α → Phrase}

theorem snoc {us ts : List Token} {xs : List α} {x : α} (hs : Followed sep part us xs)
    (h : Derives ts (part x)) : Followed sep part (us ++ ts ++ [sep]) (xs ++ [x]) := by
  induction hs with
  | nil => simpa using cons h nil
  | cons hy _ ih => simpa using cons hy ih

/-- The parts before the last one make up a chain with it, under any rules that build chains. -/
theorem close (chain : List α → Phrase) (one : ∀ {ts x}, Derives ts (part x) → Derives ts (chain [x]))
    (more : ∀ {ts us x xs}, Derives ts (part x) → Derives us (chain xs) →
      Derives (ts ++ sep :: us) (chain (x :: xs)))
    {us ts : List Token} {xs : List α} {x : α} (hs : Followed sep part us xs) (h : Derives ts (part x)) :
    Derives (us ++ ts) (chain (xs ++ [x])) := by
  induction hs with
  | nil => simpa using one h
  | cons hy _ ih => simpa using more hy ih

end Followed

namespace Derives

theorem operand_iff {ts : List Token} {v : Operand} : Derives ts (.operand v) ↔ ts = [v.token] := by
  constructor
  · intro h
    cases h <;> rfl
  · rintro rfl
    cases v
    · exact literal
    · exact name

theorem operand (v : Operand) : Derives [v.token] (.operand v) := operand_iff.2 rfl

/-- A chain with a separator after it is a chain that goes on. -/
theorem conjuncts_followed {ts : List Token} {es : List Expr} (h : Derives ts (.conjuncts es)) :
    Followed .and .unary (ts ++ [.and]) es := by
  generalize hp : Phrase.conjuncts es = p at h
  induction h generalizing es with
  | conjunct h =>
    cases hp
    exact .cons h .nil
  | moreConjuncts h _ _ ih =>
    cases hp
    simpa using Followed.cons h (ih rfl)
  | _ => cases hp

theorem arguments_followed {ts : List Token} {vs : List Operand} (h : Derives ts (.arguments vs)) :
    Followed .comma .operand (ts ++ [.comma]) vs := by
  generalize hp : Phrase.arguments vs = p at h
  induction h generalizing vs with
  | argument h =>
    cases hp
    exact .cons h .nil
  | moreArguments h _ _ ih =>
    cases hp
    simpa using Followed.cons h (ih rfl)
  | _ => cases hp

end Derives
end RecordSource.Filter
