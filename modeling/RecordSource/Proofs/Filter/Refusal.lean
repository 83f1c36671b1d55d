import RecordSource.Proofs.Filter.Acceptance
import RecordSource.Proofs.Filter.Rewriting

/-!
Refusing unknown fields. What is refused depends on the filter as it was read, not on what becomes of it: the recognised
clauses name fields from left to right, and the first that the catalog does not hold is the answer. A filter that names
none is compiled as if unknown fields were kept.
-/
namespace RecordSource.Filter
open RecordSource.Field

namespace Clause

/-- The field that a recognised clause names. -/
def field? : Clause → Option String
  | compare field _ _ => some field
  | call "string" "IsNullOrEmpty" [.bare field] => some field
  | call target "Contains" [.quoted _] => if target = "" then none else some target
  | _ => none

/-- Recognised clauses are those that make a demand. -/
theorem field_demand? (c : Clause) : c.demand?.map Demand.field = c.field? := by
  fun_cases demand? c with
  | case1 | case2 | case3 | case4 => rfl
  | case5 target value htarget => simp [field?, htarget]
  | case6 c hquoted hbare hblank hcontains =>
    fun_cases field? c with
    | case1 field op value =>
      cases value with
      | quoted value => exact absurd rfl (hquoted field op value)
      | bare value => exact absurd rfl (hbare field op value)
    | case2 field => exact absurd rfl (hblank field)
    | case3 value => exact absurd rfl (hcontains "" value)
    | case4 target value _ => exact absurd rfl (hcontains target value)
    | case5 => rfl

end Clause

namespace Expr

mutual

/-- The clauses of a tree, from left to right. -/
def clauses : Expr → List Clause
  | or items => clausesAll items
  | and items => clausesAll items
  | not inner => clauses inner
  | group inner => clauses inner
  | clause c => [c]

def clausesAll : List Expr → List Clause
  | [] => []
  | e :: es => clauses e ++ clausesAll es

end

/-- The fields that the recognised clauses of a tree name, from left to right. -/
def fields (e : Expr) : List String := e.clauses.filterMap Clause.field?

@[simp] theorem fields_not (e : Expr) : (not e).fields = e.fields := rfl

@[simp] theorem fields_group (e : Expr) : (group e).fields = e.fields := rfl

@[simp] theorem fields_clause (c : Clause) : (clause c).fields = c.field?.toList := by
  cases h : c.field? <;> simp [fields, clauses, h]

end Expr

namespace Compiler

/-- The first of some fields that the catalog does not hold. -/
def firstUnknown? (c : Compiler) (fields : List String) : Option String :=
  fields.find? fun f => (c.catalog.find? f).isNone

/-- A value, unless an unknown field stands in the way. -/
def barred {α : Type} (unknown? : Option String) (a : α) : Except Fault α :=
  match unknown? with
  | some f => .error (.unknownField f)
  | none => .ok a

section
variable {α β : Type} (unknown? : Option String) (a : α)

theorem map_barred (g : α → β) : (barred unknown? a).map g = barred unknown? (g a) := by
  cases unknown? <;> rfl

theorem bind_barred (other? : Option String) (g : α → β) :
    ((barred unknown? a).bind fun a => barred other? (g a)) = barred (unknown?.or other?) (g a) := by
  cases unknown? <;> rfl

end

variable {c : Compiler}

theorem firstUnknown?_append (fs gs : List String) :
    c.firstUnknown? (fs ++ gs) = (c.firstUnknown? fs).or (c.firstUnknown? gs) :=
  List.find?_append

/-- The compiler that keeps unknown fields. -/
def keeping (c : Compiler) : Compiler := { c with unknown := .keep }

theorem meet_refuse (hc : c.unknown = .refuse) (d : Demand) :
    c.meet d = barred (c.firstUnknown? [d.field]) (c.keeping.replacement? d) := by
  cases hfind : c.catalog.find? d.field with
  | none =>
    have hunknown : c.firstUnknown? [d.field] = some d.field := by simp [firstUnknown?, hfind]
    rw [hunknown, meet, hfind, hc]
    rfl
  | some target =>
    -- A field that is known is met alike in both compilers.
    have hknown : c.firstUnknown? [d.field] = none := by simp [firstUnknown?, hfind]
    have hsame : c.meet d = c.keeping.meet d := by
      rw [meet, meet, hfind, show c.keeping.catalog.find? d.field = some target from hfind]
      rfl
    rw [hknown, hsame, meet_keep rfl]
    rfl

theorem expandClause_refuse (hc : c.unknown = .refuse) (around : Expr) (demand? : Option Demand) :
    c.expandClause around demand? =
      let new := (demand?.bind c.keeping.replacement?).getD around
      barred (c.firstUnknown? (demand?.map Demand.field).toList) (new, decide (new ≠ around)) := by
  have hkeep := expandClause_keep (c := c.keeping) rfl around demand?
  cases demand? with
  | none => exact hkeep
  | some d =>
    rw [expandClause, meet_keep rfl] at hkeep
    rw [expandClause, meet_refuse hc, map_barred]
    exact congrArg (barred _) (Except.ok.inj hkeep)

mutual

/-- Expanding stops at the first unknown field, or else does what it does where such fields are kept. -/
theorem expand_refuse (hc : c.unknown = .refuse) : ∀ e : Expr, c.expand e =
    barred (c.firstUnknown? e.fields) (c.keeping.rewritten e, decide (c.keeping.rewritten e ≠ e))
  | .or items => by
    rw [expand, expandAll_refuse hc items, map_barred]
    simp [Expr.fields, Expr.clauses, rewritten]
  | .and items => by
    rw [expand, expandAll_refuse hc items, map_barred]
    simp [Expr.fields, Expr.clauses, rewritten]
  | .group inner => by
    rw [expand, expand_refuse hc inner, map_barred]
    simp [rewritten]
  | .clause clause => by
    rw [expand, expandClause_refuse hc, clause.field_demand?, Expr.fields_clause, rewritten]
  | .not inner => by
    have hinner := expand_refuse hc inner
    rcases inner.call_or_not with ⟨target, method, args, rfl⟩ | hcall
    · -- A denied call is one demand, which names the field of the call.
      have hfield : ((Clause.call target method args).demand?.map Demand.negated).map Demand.field =
          (Clause.call target method args).field? := by
        rw [Option.map_map, ← Clause.field_demand?]
        rfl
      rw [expand, expandClause_refuse hc, hfield, Expr.fields_not, Expr.fields_clause, rewritten]
    · rw [rewritten_not hcall, expand, hinner, map_barred]
      · simp
      · exact hcall

theorem expandAll_refuse (hc : c.unknown = .refuse) : ∀ es : List Expr, c.expandAll es =
    barred (c.firstUnknown? ((Expr.clausesAll es).filterMap Clause.field?))
      (c.keeping.rewrittenAll es, decide (c.keeping.rewrittenAll es ≠ es))
  | [] => rfl
  | e :: es => by
    rw [expandAll, expand_refuse hc e, expandAll_refuse hc es]
    simp only [map_barred]
    rw [bind_barred, Expr.clausesAll, List.filterMap_append, firstUnknown?_append, rewrittenAll]
    simp [Expr.fields]

end

theorem transform_refuse (hc : c.unknown = .refuse) (e : Expr) :
    ∃ result, c.keeping.transform e = .ok result ∧ c.transform e = barred (c.firstUnknown? e.fields) result := by
  rw [transform, transform, expand_keep rfl, expand_refuse hc, map_barred]
  exact ⟨_, rfl, rfl⟩

/-- A filter that can be read is compiled as if unknown fields were kept, unless it names one. -/
theorem compile_refuse_of_parse? (hc : c.unknown = .refuse) {text : String} {e : Expr}
    (he : Expr.parse? text = .ok e) :
    ∃ u, c.keeping.compile text = .ok u ∧ c.compile text = barred (c.firstUnknown? e.fields) u := by
  obtain ⟨result, hkeep, hrefuse⟩ := transform_refuse hc e
  refine ⟨if result.2 then result.1.render else text, ?_, ?_⟩
  · rw [compile, he]
    change (c.keeping.transform e).map _ = _
    rw [hkeep]
    rfl
  · rw [compile, he]
    change (c.transform e).map _ = _
    rw [hrefuse, map_barred]

/-- Refusing unknown fields is keeping them and one check more. The answer is an unknown field exactly if the filter can
be read and that field is the first one unknown among those that its recognised clauses name; any other answer is the
one given where unknown fields are kept, and that is never an unknown field. -/
theorem compile_refuse (catalog : Catalog) (now : Nat) (text : String) :
    let strict : Compiler := ⟨catalog, now, .refuse⟩
    let lenient : Compiler := ⟨catalog, now, .keep⟩
    (∀ f, strict.compile text = .error (.unknownField f) ↔
      ∃ e, Expr.parse? text = .ok e ∧ e.fields.find? (fun f => (catalog.find? f).isNone) = some f) ∧
    ((∃ f, strict.compile text = .error (.unknownField f)) ∨ strict.compile text = lenient.compile text) ∧
    ∀ f, lenient.compile text ≠ .error (.unknownField f) := by
  intro strict lenient
  cases hparse : Expr.parse? text with
  | error fault =>
    obtain ⟨offset, problem, rfl⟩ := Expr.parse?_malformed_of_error hparse
    have hfault : ∀ c : Compiler, c.compile text = .error (.malformed offset problem) := by
      intro c
      rw [compile, hparse]
      rfl
    simp [hfault]
  | ok e =>
    obtain ⟨u, hkeep, hrefuse⟩ := compile_refuse_of_parse? (c := strict) rfl hparse
    have hlenient : lenient.compile text = .ok u := hkeep
    rw [hrefuse, hlenient]
    cases hfirst : strict.firstUnknown? e.fields with
    | none =>
      have hnone : e.fields.find? (fun f => (catalog.find? f).isNone) = none := hfirst
      simp [barred, hnone]
    | some f =>
      have hsome : e.fields.find? (fun f => (catalog.find? f).isNone) = some f := hfirst
      simp [barred, hsome]

/-- Groups and negations do not change the order, and only recognised calls name a field. -/
example :
    let text := "!(a = \"1\" && !b.Contains(\"x\") && b.Has(\"x\")) || string.IsNullOrEmpty(c)"
    (Expr.parse? text).toOption.map Expr.fields = some ["a", "b", "c"] := by decide +kernel

end Compiler
end RecordSource.Filter
