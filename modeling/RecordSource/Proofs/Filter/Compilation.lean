import RecordSource.Proofs.Filter.Rewriting

/-!
Compiling keeps what a filter means: the compiled text reads as a tree that holds exactly when the filter does, each
supported demand taken for what the mapping of its field says.
-/
namespace RecordSource.Filter
open RecordSource.Field

namespace Compiler
variable {c : Compiler}

/-- What a supported demand means. -/
def demandMeaning? (c : Compiler) (ρ : Assignment) (d : Demand) : Option Bool :=
  (c.target? d).bind fun target =>
    if target.mapping.supports target.key? d.value d.op then
      some (target.mapping.meaning c.catalog.thresholds ρ target.key? (Time.stamp c.now) d.value d.op)
    else none

/-- What a clause means: a supported demand what its field's mapping says, all else itself. -/
def meaning (c : Compiler) (ρ : Assignment) (clause : Clause) : Bool :=
  (clause.demand?.bind (c.demandMeaning? ρ)).getD (ρ clause)

theorem demandMeaning?_eq (c : Compiler) (ρ : Assignment) (d : Demand) :
    c.demandMeaning? ρ d = (c.replacement? d).map (Expr.eval (ρ.through c.catalog.thresholds)) := by
  unfold demandMeaning? replacement?
  cases c.target? d with
  | none => rfl
  | some target =>
    have hsome := target.mapping.expand?_isSome target.key? (Time.stamp c.now) d.value d.op
    rw [Option.bind_some, Option.bind_some, ← hsome]
    cases he : target.mapping.expand? target.key? (Time.stamp c.now) d.value d.op with
    | none => rfl
    | some e => exact congrArg some (Mapping.eval_expand? he).symm

theorem bind_demandMeaning? (c : Compiler) (ρ : Assignment) (demand? : Option Demand) :
    demand?.bind (c.demandMeaning? ρ) =
      (demand?.bind c.replacement?).map (Expr.eval (ρ.through c.catalog.thresholds)) := by
  cases demand? with
  | none => rfl
  | some d => exact c.demandMeaning?_eq ρ d

/-- Denying a call turns its meaning around. -/
theorem demandMeaning?_negated (c : Compiler) (ρ : Assignment) {d : Demand}
    (hop : d.op = .contains ∨ d.op = .isBlank) :
    c.demandMeaning? ρ d.negated = (c.demandMeaning? ρ d).map not := by
  have htarget : c.target? d.negated = c.target? d := rfl
  unfold demandMeaning?
  rw [htarget]
  cases c.target? d with
  | none => rfl
  | some target =>
    have hsupports : target.mapping.supports target.key? d.negated.value d.negated.op =
        target.mapping.supports target.key? d.value d.op := Mapping.supports_negate hop
    rw [Option.bind_some, Option.bind_some, hsupports]
    cases hm : target.mapping.supports target.key? d.value d.op with
    | false => rfl
    | true => exact congrArg some (Mapping.meaning_negate hop hm _ _ _)

theorem op_of_call {target method : String} {args : List Operand} {d : Demand}
    (h : (Clause.call target method args).demand? = some d) : d.op = .contains ∨ d.op = .isBlank := by
  unfold Clause.demand? at h
  split at h
  case h_3 =>
    cases h
    exact .inr rfl
  case h_4 =>
    split at h
    · cases h
    · cases h
      exact .inl rfl
  all_goals simp_all

/-- Thresholds leave alone what is not replaced. -/
theorem applyClause_of_kept (hc : c.catalog.Lawful) {clause : Clause}
    (h : clause.demand?.bind c.replacement? = none) :
    Threshold.applyClause c.catalog.thresholds clause = clause := by
  match clause with
  | .compare field op (.bare value) => rfl
  | .call target method args => rfl
  | .term name => rfl
  | .compare field op (.quoted value) =>
    rw [Threshold.applyClause_compare]
    unfold Threshold.raise
    split
    · next hmem =>
      have hplain := hc.raised _ hmem
      simp only [Catalog.isPlain] at hplain
      split at hplain
      · next path hlookup =>
        have hfind : c.catalog.find? field = some ⟨.plain path, none⟩ := by
          rw [Catalog.find?, hlookup]
        have hsome := Mapping.plain?_isSome path value (.compare op)
        simp [Clause.demand?, replacement?, target?, hfind, Mapping.expand?] at h
        rw [h] at hsome
        cases hsome
      · cases hplain
    · rfl

variable {ρ : Assignment}

/-- A clause that is replaced or kept means what it should, once the thresholds are in. -/
theorem eval_replaced (hc : c.catalog.Lawful) (clause : Clause) :
    ((clause.demand?.bind c.replacement?).getD (.clause clause)).eval (ρ.through c.catalog.thresholds) =
      c.meaning ρ clause := by
  rw [meaning, bind_demandMeaning?]
  cases h : clause.demand?.bind c.replacement? with
  | none => exact congrArg ρ (applyClause_of_kept hc h)
  | some e => rfl

theorem eval_replaced_not {target method : String} {args : List Operand} :
    ((((Clause.call target method args).demand?.map Demand.negated).bind c.replacement?).getD
      (.not (.clause (.call target method args)))).eval (ρ.through c.catalog.thresholds) =
      !c.meaning ρ (.call target method args) := by
  cases hd : (Clause.call target method args).demand? with
  | none => simp [meaning, hd, Expr.eval]
  | some d =>
    have hnegated := c.demandMeaning?_negated ρ (op_of_call hd)
    rw [c.demandMeaning?_eq ρ d.negated] at hnegated
    rw [meaning, hd, Option.bind_some, Option.map_some, Option.bind_some]
    cases hr : c.replacement? d.negated with
    | none =>
      rw [hr, Option.map_none, eq_comm, Option.map_eq_none_iff] at hnegated
      simp [hnegated, Expr.eval]
    | some e =>
      rw [hr, Option.map_some, eq_comm, Option.map_eq_some_iff] at hnegated
      obtain ⟨b, hb, heq⟩ := hnegated
      simp [hb, ← heq]

mutual

theorem eval_rewritten (hc : c.catalog.Lawful) : ∀ e : Expr,
    (c.rewritten e).eval (ρ.through c.catalog.thresholds) = e.eval (c.meaning ρ)
  | .or items => by
    rw [rewritten, rewrittenAll_eq_map]
    exact Expr.eval_or_map (eval_rewrittenAll hc items)
  | .and items => by
    rw [rewritten, rewrittenAll_eq_map]
    exact Expr.eval_and_map (eval_rewrittenAll hc items)
  | .group inner => eval_rewritten hc inner
  | .clause clause => eval_replaced hc clause
  | .not inner => by
    have hinner := eval_rewritten hc inner
    rcases inner.call_or_not with ⟨target, method, args, rfl⟩ | hcall
    · exact eval_replaced_not
    · rw [rewritten_not hcall, Expr.eval, Expr.eval, hinner]

theorem eval_rewrittenAll (hc : c.catalog.Lawful) : ∀ es : List Expr, ∀ e ∈ es,
    (c.rewritten e).eval (ρ.through c.catalog.thresholds) = e.eval (c.meaning ρ)
  | [] => by simp
  | e :: es => List.forall_mem_cons.2 ⟨eval_rewritten hc e, eval_rewrittenAll hc es⟩

end

/-- Every filter that can be read compiles, and the compiled text reads as a tree that holds of a record exactly when
the filter holds of it, each supported demand taken for what it means. -/
theorem compile_keeps_meaning (d : Domain) (now : Nat) {text : String}
    (hu : ∀ ps, scan text = .ok ps → Undotted (ps.map Placed.token)) :
    let c : Compiler := ⟨d.service.catalog, now, .keep⟩
    ((∃ u, c.compile text = .ok u) ↔ ∃ e, Expr.parse? text = .ok e) ∧
    ∀ u, c.compile text = .ok u → ∃ e final, Expr.parse? text = .ok e ∧ Expr.parse? u = .ok final ∧
      ∀ ρ, final.eval ρ = e.eval (c.meaning ρ) := by
  intro c
  have hc : c.catalog.Lawful := lawful d
  have hread : ∀ u, c.compile text = .ok u → ∃ e, Expr.parse? text = .ok e := by
    intro u h
    obtain ⟨e, he, _⟩ := Outcome.bind_eq_ok_iff.1 h
    exact ⟨e, he⟩
  refine ⟨⟨fun ⟨u, h⟩ => hread u h, fun ⟨e, he⟩ => ⟨_, compile_keep rfl he⟩⟩, ?_⟩
  intro u h
  obtain ⟨e, he⟩ := hread u h
  have hwf : e.WellFormed := wellFormed_of_parse? he hu
  have hrewritten := (rewritten_replaces hc e hwf).wellFormed
  have hfinal := (Expr.threshold_replaces c.catalog.thresholds _ hrewritten).wellFormed
  refine ⟨e, _, he, parse?_compile rfl he hfinal h, ?_⟩
  intro ρ
  rw [Expr.eval_threshold]
  exact eval_rewritten hc e

theorem compile_keeps_meaning_spread_and_threshold :
    let c : Compiler := ⟨Domain.alarms.service.catalog, 0, .keep⟩
    let text := "source != \"a\" && currentSeverityLevel = \"4\""
    let u := "(properties[\"system\"] != \"a\" && properties[\"minionId\"] != \"a\") && " ++
      "currentSeverityLevel >= \"4\""
    (∀ ps, scan text = .ok ps → Undotted (ps.map Placed.token)) ∧ c.compile text = .ok u ∧
    ∃ e final, Expr.parse? text = .ok e ∧ Expr.parse? u = .ok final ∧ ∀ ρ, final.eval ρ = e.eval (c.meaning ρ) := by
  intro c text u
  have hscan : scan text = .ok [⟨0, .name "source"⟩, ⟨7, .compare .ne⟩, ⟨10, .literal "a"⟩, ⟨14, Token.and⟩,
      ⟨17, .name "currentSeverityLevel"⟩, ⟨38, .compare .eq⟩, ⟨40, .literal "4"⟩] :=
    Outcome.toOption_eq_some_iff.1 (by decide +kernel)
  have hu : ∀ ps, scan text = .ok ps → Undotted (ps.map Placed.token) := by
    intro ps hps n hn
    rw [hscan] at hps
    cases hps
    have hmem := hn.subset List.mem_cons_self
    simp at hmem
    rcases hmem with rfl | rfl <;> decide
  have hcompile : c.compile text = .ok u := Outcome.toOption_eq_some_iff.1 (by decide +kernel)
  exact ⟨hu, hcompile, (compile_keeps_meaning .alarms 0 hu).2 u hcompile⟩

end Compiler
end RecordSource.Filter
