import RecordSource.Filter.Compiler
import RecordSource.Proofs.Field.Lawful

/-!
Compiling as rewriting. Where unknown fields are kept, expanding an expression puts the expansion of each supported
demand in its place and changes nothing else; in a lawful catalog the new expression, thresholds and all, can be
written and read again.
-/
namespace RecordSource.Filter
open RecordSource.Field

/-! Trees in the place of others. -/

namespace Expr

theorem call_or_not (e : Expr) : (∃ target method args, e = .clause (.call target method args)) ∨
    ∀ target method args, e ≠ .clause (.call target method args) := by
  cases e with
  | clause c =>
    cases c with
    | call target method args => exact .inl ⟨target, method, args, rfl⟩
    | compare | term => exact .inr (by simp)
  | or | and | not | group => exact .inr (by simp)

/-- A tree that can stand wherever another one stands. -/
structure Replaces (new old : Expr) : Prop where
  wellFormed : new.WellFormed
  isOr : new.isOr = old.isOr
  isChain : new.isChain = old.isChain

namespace Replaces

theorem of_isItem {new old : Expr} (hnew : new.IsItem) (hold : old.IsItem) : new.Replaces old :=
  ⟨hnew.1, by rw [isOr_of_isChain hnew.2, isOr_of_isChain hold.2], by rw [hnew.2, hold.2]⟩

theorem or {items : List Expr} {f : Expr → Expr} (h : (Expr.or items).WellFormed)
    (hf : ∀ e ∈ items, (f e).Replaces e) : (Expr.or (items.map f)).Replaces (Expr.or items) := by
  obtain ⟨hlen, hparts, _⟩ := h
  refine ⟨⟨by simpa using hlen, ?_, ?_⟩, rfl, rfl⟩
  · refine List.forall_mem_map.2 ?_
    intro e he
    rw [(hf e he).isOr, hparts e he]
  · rw [allWellFormed_iff]
    exact List.forall_mem_map.2 fun e he => (hf e he).wellFormed

theorem and {items : List Expr} {f : Expr → Expr} (h : (Expr.and items).WellFormed)
    (hf : ∀ e ∈ items, (f e).Replaces e) : (Expr.and (items.map f)).Replaces (Expr.and items) := by
  obtain ⟨hlen, hparts, _⟩ := h
  refine ⟨⟨by simpa using hlen, ?_, ?_⟩, rfl, rfl⟩
  · refine List.forall_mem_map.2 ?_
    intro e he
    rw [(hf e he).isChain, hparts e he]
  · rw [allWellFormed_iff]
    exact List.forall_mem_map.2 fun e he => (hf e he).wellFormed

theorem group {new old : Expr} (h : new.Replaces old) : (Expr.group new).Replaces (Expr.group old) :=
  ⟨h.wellFormed, rfl, rfl⟩

theorem not {new old : Expr} (hold : (Expr.not old).WellFormed) (h : new.Replaces old) :
    (Expr.not new).Replaces (Expr.not old) :=
  ⟨⟨by rw [h.isChain, hold.1], h.wellFormed⟩, rfl, rfl⟩

end Replaces

mutual

/-- Thresholds leave a tree fit for its place. -/
theorem threshold_replaces (rules : List Threshold) : ∀ e : Expr, e.WellFormed →
    (Threshold.apply rules e).Replaces e
  | or items, h => by
    rw [Threshold.apply, Threshold.applyAll_eq_map]
    exact .or h (thresholdAll_replaces rules items h.2.2)
  | and items, h => by
    rw [Threshold.apply, Threshold.applyAll_eq_map]
    exact .and h (thresholdAll_replaces rules items h.2.2)
  | not inner, h => .not h (threshold_replaces rules inner h.2)
  | group inner, h => .group (threshold_replaces rules inner h)
  | clause (.compare _ _ (.quoted _)), h => ⟨h, rfl, rfl⟩
  | clause (.compare _ _ (.bare _)), h => ⟨h, rfl, rfl⟩
  | clause (.call _ _ _), h => ⟨h, rfl, rfl⟩
  | clause (.term _), h => ⟨h, rfl, rfl⟩

theorem thresholdAll_replaces (rules : List Threshold) : ∀ es : List Expr, AllWellFormed es →
    ∀ e ∈ es, (Threshold.apply rules e).Replaces e
  | [], _ => by simp
  | e :: es, h => List.forall_mem_cons.2 ⟨threshold_replaces rules e h.1, thresholdAll_replaces rules es h.2⟩

end

end Expr

namespace Compiler

/-- The field that a demand is put to. -/
def target? (c : Compiler) (d : Demand) : Option Target :=
  (c.catalog.find? d.field).filter fun target => !d.bare || target.mapping.isFlag

/-- What a demand is replaced by. -/
def replacement? (c : Compiler) (d : Demand) : Option Expr :=
  (c.target? d).bind fun target => target.mapping.expand? target.key? (Time.stamp c.now) d.value d.op

mutual

/-- An expression with every demand replaced. -/
def rewritten (c : Compiler) : Expr → Expr
  | .or items => .or (rewrittenAll c items)
  | .and items => .and (rewrittenAll c items)
  | .group inner => .group (rewritten c inner)
  | .not (.clause (.call target method args)) =>
    let call := Clause.call target method args
    ((call.demand?.map Demand.negated).bind c.replacement?).getD (.not (.clause call))
  | .not inner => .not (rewritten c inner)
  | .clause clause => (clause.demand?.bind c.replacement?).getD (.clause clause)

def rewrittenAll (c : Compiler) : List Expr → List Expr
  | [] => []
  | e :: es => rewritten c e :: rewrittenAll c es

end

theorem rewrittenAll_eq_map (c : Compiler) (es : List Expr) : c.rewrittenAll es = es.map c.rewritten := by
  induction es with
  | nil => rfl
  | cons e es ih => rw [rewrittenAll, ih, List.map_cons]

variable {c : Compiler}

theorem rewritten_not {inner : Expr} (h : ∀ target method args, inner ≠ .clause (.call target method args)) :
    c.rewritten (.not inner) = .not (c.rewritten inner) := by
  rw [rewritten]
  exact h

/-! Expanding is rewriting. -/

theorem meet_keep (hc : c.unknown = .keep) (d : Demand) : c.meet d = .ok (c.replacement? d) := by
  unfold meet replacement? target?
  cases c.catalog.find? d.field with
  | none => rw [hc]; rfl
  | some target =>
    rw [Option.filter_some]
    cases d.bare <;> cases hflag : target.mapping.isFlag <;> simp [hflag]

theorem expandClause_keep (hc : c.unknown = .keep) (around : Expr) (demand? : Option Demand) :
    c.expandClause around demand? =
      let new := (demand?.bind c.replacement?).getD around
      .ok (new, decide (new ≠ around)) := by
  cases demand? with
  | none => simp [expandClause]
  | some d =>
    rw [expandClause, meet_keep hc, Option.bind_some]
    cases c.replacement? d with
    | none => simp [Except.map, replaceBy]
    | some new =>
      by_cases h : new = around
      · simp [Except.map, replaceBy, h]
      · simp [Except.map, replaceBy, h]

mutual

/-- Where unknown fields are kept, expanding never fails. -/
theorem expand_keep (hc : c.unknown = .keep) : ∀ e : Expr,
    c.expand e = .ok (c.rewritten e, decide (c.rewritten e ≠ e))
  | .or items => by simp [expand, rewritten, expandAll_keep hc items, Except.map]
  | .and items => by simp [expand, rewritten, expandAll_keep hc items, Except.map]
  | .group inner => by simp [expand, rewritten, expand_keep hc inner, Except.map]
  | .clause clause => by rw [expand, rewritten, expandClause_keep hc]
  | .not inner => by
    have hinner := expand_keep hc inner
    rcases inner.call_or_not with ⟨target, method, args, rfl⟩ | hcall
    · rw [expand, rewritten, expandClause_keep hc]
    · rw [rewritten_not hcall, expand, hinner]
      · simp [Except.map]
      · exact hcall

theorem expandAll_keep (hc : c.unknown = .keep) : ∀ es : List Expr,
    c.expandAll es = .ok (c.rewrittenAll es, decide (c.rewrittenAll es ≠ es))
  | [] => rfl
  | e :: es => by
    rw [expandAll, expand_keep hc e, expandAll_keep hc es, rewrittenAll]
    simp [Except.map, Except.bind]

end

/-- The compiled text: the rewritten tree with its thresholds in, or the text as it was if nothing changes. -/
theorem compile_keep (hc : c.unknown = .keep) {text : String} {e : Expr} (he : Expr.parse? text = .ok e) :
    let final := Threshold.apply c.catalog.thresholds (c.rewritten e)
    c.compile text = .ok (if c.rewritten e ≠ e ∨ final ≠ c.rewritten e then final.render else text) := by
  simp [compile, he, transform, expand_keep hc, Except.bind, Except.map]

theorem parse?_compile (hc : c.unknown = .keep) {text u : String} {e : Expr} (he : Expr.parse? text = .ok e)
    (hwf : (Threshold.apply c.catalog.thresholds (c.rewritten e)).WellFormed) (h : c.compile text = .ok u) :
    Expr.parse? u = .ok (Threshold.apply c.catalog.thresholds (c.rewritten e)) := by
  rw [compile_keep hc he, Except.ok.injEq] at h
  subst h
  split
  · exact Expr.parse?_render_of_wellFormed hwf
  · next hsame =>
    rw [not_or, Decidable.not_not, Decidable.not_not] at hsame
    rw [hsame.2, hsame.1, he]

/-! What rewriting leaves writable. -/

theorem isFieldName_of_demand? {clause : Clause} (hclause : clause.WellFormed) {d : Demand}
    (hd : clause.demand? = some d) : IsFieldName d.field := by
  intro hb
  unfold Clause.demand? at hd
  split at hd
  · cases hd
    exact hclause.1.plain hb
  · cases hd
    exact hclause.1.plain hb
  · cases hd
    exact (List.forall_mem_singleton.1 hclause.2).plain hb
  · next target value _ =>
    split at hd
    · cases hd
    · next hne =>
      cases hd
      have hname := hclause.1.1
      rw [Clause.callName, if_neg hne] at hname
      intro ch hch
      exact hname.plain (by simp [hb]) ch (by simp [hch])
  · cases hd

theorem replacement?_isItem (hc : c.catalog.Lawful) {d : Demand} (hd : IsFieldName d.field) {e : Expr}
    (he : c.replacement? d = some e) : e.IsItem := by
  obtain ⟨target, htarget, hexpand⟩ := Option.bind_eq_some_iff.1 he
  have hfind := (Option.filter_eq_some_iff.1 htarget).1
  exact Mapping.expand?_isItem hexpand (hc.isPath hd hfind)

theorem replaced_replaces (hc : c.catalog.Lawful) {around : Expr} (haround : around.IsItem)
    {demand? : Option Demand} (hd : ∀ d ∈ demand?, IsFieldName d.field) :
    ((demand?.bind c.replacement?).getD around).Replaces around := by
  cases demand? with
  | none => exact .of_isItem haround haround
  | some d =>
    rw [Option.bind_some]
    cases he : c.replacement? d with
    | none => exact .of_isItem haround haround
    | some e => exact .of_isItem (replacement?_isItem hc (hd d rfl) he) haround

mutual

theorem rewritten_replaces (hc : c.catalog.Lawful) : ∀ e : Expr, e.WellFormed → (c.rewritten e).Replaces e
  | .or items, h => by
    rw [rewritten, rewrittenAll_eq_map]
    exact .or h (rewrittenAll_replaces hc items h.2.2)
  | .and items, h => by
    rw [rewritten, rewrittenAll_eq_map]
    exact .and h (rewrittenAll_replaces hc items h.2.2)
  | .group inner, h => .group (rewritten_replaces hc inner h)
  | .clause clause, h => replaced_replaces hc ⟨h, rfl⟩ fun d hd => isFieldName_of_demand? h hd
  | .not inner, h => by
    have hinner := rewritten_replaces hc inner h.2
    rcases inner.call_or_not with ⟨target, method, args, rfl⟩ | hcall
    · refine replaced_replaces hc ⟨h, rfl⟩ ?_
      intro d hd
      obtain ⟨d', hd', rfl⟩ := Option.map_eq_some_iff.1 hd
      have hfield : IsFieldName d'.field := isFieldName_of_demand? h.2 hd'
      exact hfield
    · rw [rewritten_not hcall]
      exact .not h hinner

theorem rewrittenAll_replaces (hc : c.catalog.Lawful) : ∀ es : List Expr, Expr.AllWellFormed es →
    ∀ e ∈ es, (c.rewritten e).Replaces e
  | [], _ => by simp
  | e :: es, h => List.forall_mem_cons.2 ⟨rewritten_replaces hc e h.1, rewrittenAll_replaces hc es h.2⟩

end

end Compiler
end RecordSource.Filter
