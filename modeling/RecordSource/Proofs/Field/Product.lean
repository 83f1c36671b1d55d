import RecordSource.Proofs.Field.Expansion
import RecordSource.Template.Fill

/-!
The tree of an expansion, leaf by leaf. A demand with several values on a field over several paths becomes one clause for
each path and each value, path by path; the operator's connective alone joins them, within parentheses.
-/
namespace RecordSource.Filter

namespace Expr

mutual

/-- The conditions that the connectives of a tree join, from left to right. A negation is one condition. -/
def leaves : Expr → List Expr
  | or items => leavesAll items
  | and items => leavesAll items
  | group inner => leaves inner
  | not inner => [not inner]
  | clause c => [clause c]

def leavesAll : List Expr → List Expr
  | [] => []
  | e :: es => leaves e ++ leavesAll es

end

mutual

/-- The connectives of a tree, one for each disjunction or conjunction in it. -/
def connectives : Expr → List Connective
  | or items => .or :: connectivesAll items
  | and items => .and :: connectivesAll items
  | group inner => connectives inner
  | not inner => connectives inner
  | clause _ => []

def connectivesAll : List Expr → List Connective
  | [] => []
  | e :: es => connectives e ++ connectivesAll es

end

mutual

/-- Every disjunction or conjunction in the tree stands in parentheses of its own. -/
def IsGrouped : Expr → Prop
  | or _ => False
  | and _ => False
  | group (or items) => AllGrouped items
  | group (and items) => AllGrouped items
  | group inner => IsGrouped inner
  | not inner => IsGrouped inner
  | clause _ => True

def AllGrouped : List Expr → Prop
  | [] => True
  | e :: es => IsGrouped e ∧ AllGrouped es

end

end Expr

/-- The tree joins the leaves, in this order, under one connective and within parentheses. -/
structure Connective.Joins (k : Connective) (leaves : List Expr) (e : Expr) : Prop where
  leaves_eq : e.leaves = leaves
  connectives : ∀ k' ∈ e.connectives, k' = k
  grouped : e.IsGrouped

namespace Connective
variable {k : Connective}

theorem joins_clause (k : Connective) (op : Field.Operator) (path value : String) :
    k.Joins [op.clause path value] (op.clause path value) := by
  cases op with
  | compare | contains | notContains | isBlank | isNotBlank => exact ⟨rfl, by rintro _ ⟨⟩, trivial⟩

/-- Several trees as one: their leaves one after the other. -/
structure AllJoin (k : Connective) (leaves : List Expr) (terms : List Expr) : Prop where
  leaves_eq : Expr.leavesAll terms = leaves
  connectives : ∀ k' ∈ Expr.connectivesAll terms, k' = k
  grouped : Expr.AllGrouped terms

theorem AllJoin.cons {leaves others : List Expr} {e : Expr} {terms : List Expr} (he : k.Joins leaves e)
    (h : k.AllJoin others terms) : k.AllJoin (leaves ++ others) (e :: terms) := by
  refine ⟨by rw [Expr.leavesAll, he.leaves_eq, h.leaves_eq], ?_, he.grouped, h.grouped⟩
  rw [Expr.connectivesAll, List.forall_mem_append]
  exact ⟨he.connectives, h.connectives⟩

theorem AllJoin.join? {leaves : List Expr} {terms : List Expr} (h : k.AllJoin leaves terms) (hne : terms ≠ []) :
    ∃ e, k.join? terms = some e ∧ k.Joins leaves e := by
  match terms with
  | [] => exact absurd rfl hne
  | [x] =>
    obtain ⟨hleaves, hconnectives, hgrouped, _⟩ := h
    simp only [Expr.leavesAll, Expr.connectivesAll, List.append_nil] at hleaves hconnectives
    exact ⟨x, rfl, hleaves, hconnectives, hgrouped⟩
  | x :: y :: terms =>
    refine ⟨_, rfl, ?_⟩
    cases k with
    | or => exact ⟨h.leaves_eq, List.forall_mem_cons.2 ⟨rfl, h.connectives⟩, h.grouped⟩
    | and => exact ⟨h.leaves_eq, List.forall_mem_cons.2 ⟨rfl, h.connectives⟩, h.grouped⟩

/-- Terms made for several things join the leaves of each in turn. -/
theorem joins_mapM {α : Type} {term? : α → Option Expr} {leaves : α → List Expr} {xs : List α} (hne : xs ≠ [])
    (h : ∀ x ∈ xs, ∃ t, term? x = some t ∧ k.Joins (leaves x) t) :
    ∃ e, (xs.mapM term?).bind k.join? = some e ∧ k.Joins (xs.flatMap leaves) e := by
  have hterms : ∃ terms, xs.mapM term? = some terms ∧ k.AllJoin (xs.flatMap leaves) terms := by
    clear hne
    induction xs with
    | nil => exact ⟨[], rfl, rfl, by simp [Expr.connectivesAll], trivial⟩
    | cons x xs ih =>
      rw [List.forall_mem_cons] at h
      obtain ⟨t, ht, hjoins⟩ := h.1
      obtain ⟨terms, hterms, hall⟩ := ih h.2
      exact ⟨t :: terms, by simp [ht, hterms], .cons hjoins hall⟩
  obtain ⟨terms, hterms, hall⟩ := hterms
  have hlength := congrArg List.length (Field.Operator.mapM_eq_some_iff.1 hterms)
  obtain ⟨e, he, hjoins⟩ := hall.join? (by rintro rfl; simp_all)
  exact ⟨e, by rw [hterms]; exact he, hjoins⟩

end Connective
end RecordSource.Filter

namespace RecordSource.Field
open RecordSource.Filter

/-- Values without commas are the values of the text that is filled in for them. -/
theorem valuesOf_many {vs : List String} (hmany : 2 ≤ vs.length) (hcomma : ∀ v ∈ vs, ',' ∉ v.toList) :
    valuesOf (Template.Value.many vs).text = vs := by
  obtain ⟨v, w, rest, rfl⟩ : ∃ v w rest, vs = v :: w :: rest := by
    match vs, hmany with
    | v :: w :: rest, _ => exact ⟨v, w, rest, rfl⟩
  let inner := Text.joinWith [','] ((v :: w :: rest).map String.toList)
  have htext : (Template.Value.many (v :: w :: rest)).text = String.ofList ('\x7b' :: (inner ++ ['\x7d'])) := rfl
  have hinner : ∃ c cs, inner = c :: cs := by
    refine List.exists_cons_of_ne_nil ?_
    simp [inner, Text.joinWith]
  obtain ⟨c, cs, hcs⟩ := hinner
  have hinside : Text.inside? '\x7b' '\x7d' ('\x7b' :: (inner ++ ['\x7d'])) = some (c :: cs) := by
    rw [Text.inside?_eq_some_iff, hcs]
  have hpieces : Text.pieces ',' inner = (v :: w :: rest).map String.toList :=
    Text.pieces_joinWith (List.forall_mem_map.2 hcomma) (by simp)
  rw [valuesOf, htext, String.toList_ofList, hinside]
  simp only [← hcs, hpieces, List.map_map]
  simp [Function.comp_def]

namespace Mapping

/-- A mapping that puts the values of a demand to the backend as they are. -/
def PutsValues : Mapping → Prop
  | plain _ | list _ | spread _ | bag _ => True
  | verbatim | time _ | flag _ => False

/-- The operator that a mapping asks with: lists are asked for containment. -/
def asked (op : Operator) : Mapping → Operator
  | list _ => op.ofList?.getD op
  | _ => op

variable {m : Mapping} {key? : Option String} {op : Operator}

theorem term?_eq (hm : m.PutsValues) (hanswers : m.answers "" op = true) (path value : String) :
    m.term? op path value = some ((m.asked op).clause path value) := by
  cases m with
  | verbatim | time | flag => exact hm.elim
  | plain | spread | bag => rfl
  | list p =>
    obtain ⟨op', hop⟩ := Option.isSome_iff_exists.1 hanswers
    simp [term?, asked, hop]

theorem filled_eq (hm : m.PutsValues) (now value : String) : m.filled now value = value := by
  cases m with
  | time => exact hm.elim
  | _ => rfl

/-- The expansion of a demand joins a clause for each path and each value that the demand names. -/
theorem expand?_joins (hm : m.PutsValues) (hsupports : m.supports key? "" op = true) (now value : String) :
    ∃ e, m.expand? key? now value op = some e ∧ op.connective.Joins
      ((m.paths key?).flatMap fun path => (op.values value).map ((m.asked op).clause path)) e := by
  rw [supports, Bool.and_eq_true] at hsupports
  obtain ⟨hpaths, hanswers⟩ := hsupports
  rw [expand?_eq]
  refine Connective.joins_mapM (by simpa using hpaths) ?_
  intro path _
  rw [onPath?_eq, filled_eq hm, perValue?, Operator.values]
  have hterm := term?_eq hm hanswers path
  split
  · exact ⟨_, hterm value, Connective.joins_clause _ _ _ _⟩
  · rw [List.map_eq_flatMap]
    exact Connective.joins_mapM (valuesOf_ne_nil value) fun v _ => ⟨_, hterm v, Connective.joins_clause _ _ _ _⟩

/-- Where several values without commas are filled in for a variable, the demand becomes a clause for each path and each
of the values, just as they were, one after the other; nothing but the operator's connective joins them, always within
parentheses. A blank check becomes one clause for each path, whatever is filled in. -/
theorem expand?_many (hm : m.PutsValues) (hsupports : m.supports key? "" op = true) (now : String) :
    (op.isBlankCheck = false → ∀ vs : List String, 2 ≤ vs.length → (∀ v ∈ vs, ',' ∉ v.toList) →
      ∃ e, m.expand? key? now (Template.Value.many vs).text op = some e ∧
        op.connective.Joins ((m.paths key?).flatMap fun path => vs.map ((m.asked op).clause path)) e ∧
        e.leaves.length = (m.paths key?).length * vs.length) ∧
    (op.isBlankCheck = true → ∀ value, ∃ e, m.expand? key? now value op = some e ∧
      op.connective.Joins ((m.paths key?).map fun path => op.clause path "") e) := by
  refine ⟨?_, ?_⟩
  · intro hvalues vs hmany hcomma
    obtain ⟨e, he, hjoins⟩ := expand?_joins hm hsupports now (Template.Value.many vs).text
    have hvs : op.values (Template.Value.many vs).text = vs := by
      rw [Operator.values, hvalues, if_neg (by simp), valuesOf_many hmany hcomma]
    rw [hvs] at hjoins
    refine ⟨e, he, hjoins, ?_⟩
    rw [hjoins.leaves_eq, List.length_flatMap]
    simp [List.map_const']
  · intro hblank value
    obtain ⟨e, he, hjoins⟩ := expand?_joins hm hsupports now value
    have hclause : ∀ path, (op.values value).map ((m.asked op).clause path) = [op.clause path ""] := by
      intro path
      rw [Operator.values, if_pos hblank]
      cases op with
      | compare | contains | notContains => cases hblank
      | isBlank | isNotBlank => cases m <;> rfl
    simp only [hclause, ← List.map_eq_flatMap] at hjoins
    exact ⟨e, he, hjoins⟩

/-- Two paths and three values, one of them a brace and one empty. -/
theorem expand?_many_over_two_paths :
    let m := Mapping.spread ["a.b", "c"]
    let op := Operator.compare .ne
    let vs := ["x y", "\x7b", ""]
    m.PutsValues ∧ m.supports none "" op = true ∧ op.isBlankCheck = false ∧ 2 ≤ vs.length ∧
    (∀ v ∈ vs, ',' ∉ v.toList) ∧ (Template.Value.many vs).text = "\x7bx y,\x7b,\x7d" ∧
    ∃ e, m.expand? none "" (Template.Value.many vs).text op = some e ∧ e.IsGrouped ∧ e.leaves =
      [op.clause "a.b" "x y", op.clause "a.b" "\x7b", op.clause "a.b" "", op.clause "c" "x y", op.clause "c" "\x7b",
        op.clause "c" ""] := by
  intro m op vs
  have hm : m.PutsValues := trivial
  have hsupports : m.supports none "" op = true := by decide
  have hcomma : ∀ v ∈ vs, ',' ∉ v.toList := by decide
  obtain ⟨e, he, hjoins, _⟩ := (expand?_many hm hsupports "").1 rfl vs (by decide) hcomma
  exact ⟨hm, hsupports, rfl, by decide, hcomma, by decide, e, he, hjoins.grouped, hjoins.leaves_eq⟩

end Mapping
end RecordSource.Field
