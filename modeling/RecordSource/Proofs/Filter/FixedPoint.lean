import RecordSource.Proofs.Field.Settled
import RecordSource.Proofs.Filter.Compilation

/-!
Compiling twice. What a demand is replaced by is firm: neither the rewriting nor the thresholds find anything more to
do in it, at whatever instant and with or without a negation before it. So a compiled filter compiles to itself.
-/
namespace RecordSource.Field
open RecordSource.Filter

namespace Threshold

theorem raise_raise (rules : List Threshold) (path value : String) (op : Comparator) :
    raise rules path value (raise rules path value op) = raise rules path value op := by
  unfold raise
  split
  · cases op <;> rfl
  · rfl

theorem applyClause_applyClause (rules : List Threshold) (clause : Clause) :
    applyClause rules (applyClause rules clause) = applyClause rules clause := by
  match clause with
  | .compare path op (.quoted value) => simp only [applyClause_compare, raise_raise]
  | .compare _ _ (.bare _) | .call _ _ _ | .term _ => rfl

mutual

/-- What is raised to a threshold is not raised again. -/
theorem apply_apply (rules : List Threshold) : ∀ e : Expr, apply rules (apply rules e) = apply rules e
  | .or items => by simp only [apply, applyAll_applyAll rules items]
  | .and items => by simp only [apply, applyAll_applyAll rules items]
  | .not inner => by simp only [apply, apply_apply rules inner]
  | .group inner => by simp only [apply, apply_apply rules inner]
  | .clause clause => by simp only [apply, applyClause_applyClause]

theorem applyAll_applyAll (rules : List Threshold) : ∀ es : List Expr,
    applyAll rules (applyAll rules es) = applyAll rules es
  | [] => rfl
  | e :: es => by simp only [applyAll, apply_apply rules e, applyAll_applyAll rules es]

end

end Threshold

namespace Mapping

theorem paths_onto (m : Mapping) (path : String) : (m.onto path).paths none = [path] := by cases m <;> rfl

theorem term?_onto (op : Operator) (m : Mapping) (path : String) : (m.onto path).term? op = m.term? op := by
  cases m <;> rfl

theorem filled_onto (now value : String) (m : Mapping) (path : String) :
    (m.onto path).filled now value = m.filled now value := by cases m <;> rfl

theorem perValue?_single {value : String} (h : valuesOf value = [value]) (op : Operator)
    (term? : String → Option Expr) : perValue? op value term? = term? value := by
  unfold perValue?
  split
  · rfl
  · rw [h, List.mapM_cons, List.mapM_nil]
    cases term? value <;> rfl

/-- One value on a path that is left alone becomes what it became before. -/
theorem expand?_onto {m : Mapping} {path now value : String} {op : Operator} (hfilled : m.filled now value = value)
    (hone : valuesOf value = [value]) : (m.onto path).expand? none now value op = m.term? op path value := by
  rw [expand?_eq, paths_onto, List.mapM_cons, List.mapM_nil, onPath?_eq, filled_onto, hfilled,
    perValue?_single hone, term?_onto]
  cases m.term? op path value <;> rfl

/-- The values of a demand name no instant any more. -/
theorem filled_of_mem_values {m : Mapping} {now : Nat} {value v : String} {op : Operator}
    (h : v ∈ m.values (Time.stamp now) value op) (now' : String) : m.filled now' v = v := by
  cases m with
  | verbatim | plain | flag | list | spread | bag => rfl
  | time path =>
    have hvalue := tokenless_fillNow now value
    refine fillNow_of_tokenless ?_ now'
    rw [values_eq, Operator.values] at h
    split at h
    · obtain rfl := List.mem_singleton.1 h
      exact hvalue
    · exact hvalue.of_mem_valuesOf h

end Mapping
end RecordSource.Field

namespace RecordSource.Filter
open RecordSource.Field

namespace Expr

mutual

def EveryClause (P : Clause → Prop) : Expr → Prop
  | or items => EveryClauseOf P items
  | and items => EveryClauseOf P items
  | not inner => EveryClause P inner
  | group inner => EveryClause P inner
  | clause c => P c

def EveryClauseOf (P : Clause → Prop) : List Expr → Prop
  | [] => True
  | e :: es => EveryClause P e ∧ EveryClauseOf P es

end

end Expr

namespace Compiler

/-- Each value that a demand names stands for itself alone. -/
def Flat (c : Compiler) (d : Demand) : Prop :=
  ∀ target ∈ c.target? d, ∀ v ∈ target.mapping.values (Time.stamp c.now) d.value d.op, valuesOf v = [v]

instance (c : Compiler) : DecidablePred c.Flat := fun d =>
  inferInstanceAs (Decidable (∀ target ∈ c.target? d,
    ∀ v ∈ target.mapping.values (Time.stamp c.now) d.value d.op, valuesOf v = [v]))

/-- With its thresholds in, the tree is rewritten no more, not even under a negation. -/
structure Firm (c : Compiler) (e : Expr) : Prop where
  alone : c.rewritten (Threshold.apply c.catalog.thresholds e) = Threshold.apply c.catalog.thresholds e
  denied : c.rewritten (.not (Threshold.apply c.catalog.thresholds e)) =
    .not (Threshold.apply c.catalog.thresholds e)

variable {c : Compiler}

theorem getD_of_same {new? : Option Expr} {e : Expr} (h : ∀ new, new? = some new → new = e) : new?.getD e = e := by
  cases new? with
  | none => rfl
  | some new => exact h new rfl

namespace Firm

/-- Only a call is one demand together with the negation before it. -/
theorem of_not_call {e : Expr}
    (hcall : ∀ target method args, Threshold.apply c.catalog.thresholds e ≠ .clause (.call target method args))
    (h : c.rewritten (Threshold.apply c.catalog.thresholds e) = Threshold.apply c.catalog.thresholds e) :
    c.Firm e :=
  ⟨h, by rw [rewritten_not hcall, h]⟩

theorem not {e : Expr} (h : c.Firm e) : c.Firm (.not e) :=
  of_not_call (by simp [Threshold.apply]) h.denied

theorem group {e : Expr} (h : c.Firm e) : c.Firm (.group e) := by
  refine of_not_call (by simp [Threshold.apply]) ?_
  rw [Threshold.apply, rewritten, h.alone]

theorem map_alone {es : List Expr} (h : ∀ e ∈ es, c.Firm e) :
    (es.map (Threshold.apply c.catalog.thresholds)).map c.rewritten =
      es.map (Threshold.apply c.catalog.thresholds) := by
  rw [List.map_map]
  exact List.map_congr_left fun e he => (h e he).alone

theorem or {es : List Expr} (h : ∀ e ∈ es, c.Firm e) : c.Firm (.or es) := by
  refine of_not_call (by simp [Threshold.apply]) ?_
  rw [Threshold.apply, Threshold.applyAll_eq_map, rewritten, rewrittenAll_eq_map, map_alone h]

theorem and {es : List Expr} (h : ∀ e ∈ es, c.Firm e) : c.Firm (.and es) := by
  refine of_not_call (by simp [Threshold.apply]) ?_
  rw [Threshold.apply, Threshold.applyAll_eq_map, rewritten, rewrittenAll_eq_map, map_alone h]

theorem keptByJoining : KeptByJoining c.Firm := by
  intro k terms e he h
  match terms, he with
  | [_], rfl => exact h _ (by simp)
  | _ :: _ :: _, rfl =>
    cases k with
    | and => exact (Firm.and h).group
    | or => exact (Firm.or h).group

theorem compare {path v : String} (op : Comparator)
    (hmet : ∀ op e, c.replacement? ⟨path, .compare op, v, false⟩ = some e →
      e = .clause (.compare path op (.quoted v))) : c.Firm (.clause (.compare path op (.quoted v))) := by
  have hraised : Threshold.apply c.catalog.thresholds (.clause (.compare path op (.quoted v))) =
      .clause (.compare path (Threshold.raise c.catalog.thresholds path v op) (.quoted v)) := by
    rw [Threshold.apply, Threshold.applyClause_compare]
  refine of_not_call (by simp [hraised]) ?_
  rw [hraised, rewritten]
  exact getD_of_same (hmet _)

/-- A call is firm if all that could be put for it, and for it denied, is what stands there. -/
theorem call {target method : String} {args : List Operand}
    (halone : ∀ e, (Clause.call target method args).demand?.bind c.replacement? = some e →
      e = .clause (.call target method args))
    (hdenied : ∀ e, ((Clause.call target method args).demand?.map Demand.negated).bind c.replacement? = some e →
      e = .not (.clause (.call target method args))) : c.Firm (.clause (.call target method args)) := by
  have hkept : Threshold.apply c.catalog.thresholds (.clause (.call target method args)) =
      .clause (.call target method args) := rfl
  constructor
  · rw [hkept, rewritten]
    exact getD_of_same halone
  · rw [hkept, rewritten]
    exact getD_of_same hdenied

theorem containsCall {path v : String}
    (hmet : ∀ op ∈ [Operator.contains, Operator.notContains], ∀ e,
      c.replacement? { field := path, op, value := v } = some e → e = op.clause path v) :
    c.Firm (Operator.containsCall path v) := by
  rw [List.forall_mem_cons, List.forall_mem_singleton] at hmet
  have hdemand : (Clause.call path "Contains" [.quoted v]).demand? =
      if path = "" then none else some { field := path, op := .contains, value := v } := by
    unfold Clause.demand?
    split <;> simp_all
  refine call ?_ ?_
  · rw [hdemand]
    split
    · simp
    · exact hmet.1
  · rw [hdemand]
    split
    · simp
    · exact hmet.2

theorem blankCall {path : String}
    (hmet : ∀ op ∈ [Operator.isBlank, Operator.isNotBlank], ∀ e,
      c.replacement? { field := path, op, value := "" } = some e → e = op.clause path "") :
    c.Firm (Operator.blankCall path) := by
  rw [List.forall_mem_cons, List.forall_mem_singleton] at hmet
  exact call hmet.1 hmet.2

end Firm

/-! What a value becomes is met by itself. -/

variable {m : Mapping} {path v : String}

/-- A demand on a path that is left alone, for one value, becomes what it was made as. -/
theorem term?_of_replacement? (hleaves : c.catalog.Leaves m path) (hfilled : ∀ now, m.filled now v = v)
    (hone : valuesOf v = [v]) {op : Operator} {e : Expr}
    (he : c.replacement? { field := path, op, value := v } = some e) : m.term? op path v = some e := by
  rcases hleaves with hnone | hfound
  · simp [replacement?, target?, hnone] at he
  · simp only [replacement?, target?, hfound, Bool.not_false, Bool.true_or, Option.filter_some, if_true,
      Option.bind_some] at he
    rwa [Mapping.expand?_onto (hfilled _) hone] at he

theorem firm_clause (hleaves : c.catalog.Leaves m path) (hfilled : ∀ now, m.filled now v = v)
    (hone : valuesOf v = [v]) (hplain : ∀ op v, m.term? op path v = some (op.clause path v)) (op : Operator) :
    c.Firm (op.clause path v) := by
  have hmet : ∀ w, (∀ now, m.filled now w = w) → valuesOf w = [w] → ∀ op e,
      c.replacement? { field := path, op, value := w } = some e → e = op.clause path w := by
    intro w hw hone op e he
    have hterm := term?_of_replacement? hleaves hw hone he
    rw [hplain, Option.some.injEq] at hterm
    exact hterm.symm
  have hvalue := hmet v hfilled hone
  have hblank := hmet "" (fun now => by cases m <;> rfl) rfl
  cases op with
  | compare op => exact .compare op fun op => hvalue (.compare op)
  | contains => exact .containsCall fun op _ => hvalue op
  | notContains => exact (Firm.containsCall fun op _ => hvalue op).not
  | isBlank => exact .blankCall fun op _ => hblank op
  | isNotBlank => exact (Firm.blankCall fun op _ => hblank op).not

theorem firm_equalsCall (path truth : String) : c.Firm (Mapping.equalsCall path truth) := by
  have hdemand : (Clause.call path "Equals" [.bare truth]).demand? = none := by
    unfold Clause.demand?
    split <;> simp_all
  exact .call (by simp [hdemand]) (by simp [hdemand])

theorem firm_term? (hleaves : c.catalog.Leaves m path) (hfilled : ∀ now, m.filled now v = v)
    (hone : valuesOf v = [v]) {op : Operator} {t : Expr} (ht : m.term? op path v = some t) : c.Firm t := by
  cases m with
  | verbatim | plain | time | spread | bag =>
    obtain rfl := Option.some.inj ht
    exact firm_clause hleaves hfilled hone (fun _ _ => rfl) op
  | flag p =>
    simp only [Mapping.term?] at ht
    split at ht
    · obtain ⟨truth, _, rfl⟩ := Option.map_eq_some_iff.1 ht
      exact firm_equalsCall path truth
    · obtain ⟨truth, _, rfl⟩ := Option.map_eq_some_iff.1 ht
      exact firm_equalsCall path truth
    · obtain ⟨truth, _, rfl⟩ := Option.map_eq_some_iff.1 ht
      exact (firm_equalsCall path truth).not
    · cases ht
  | list p =>
    have hcall : c.Firm (Operator.containsCall path v) := by
      refine .containsCall ?_
      intro op hop e he
      have hterm := term?_of_replacement? hleaves hfilled hone he
      simp only [List.mem_cons, List.not_mem_nil, or_false] at hop
      rcases hop with rfl | rfl
      · exact (Option.some.inj hterm).symm
      · exact (Option.some.inj hterm).symm
    obtain ⟨op', hop, rfl⟩ := Option.map_eq_some_iff.1 ht
    rcases Operator.ofList?_eq_some hop with rfl | rfl
    · exact hcall
    · exact hcall.not

/-! Rewritten trees are firm. -/

theorem replacement?_isSome (c : Compiler) (d : Demand) :
    (c.replacement? d).isSome = (c.target? d).any fun target => target.mapping.supports target.key? d.value d.op := by
  unfold replacement?
  cases c.target? d with
  | none => rfl
  | some target => exact target.mapping.expand?_isSome _ _ _ _

/-- Whether a demand is met depends on no instant. -/
theorem replacement?_isSome_at (c : Compiler) (now : Nat) (d : Demand) :
    (replacement? { c with now } d).isSome = (c.replacement? d).isSome := by
  rw [replacement?_isSome, replacement?_isSome]
  rfl

/-- Denying a call does not change whether it is met. -/
theorem replacement?_isSome_negated (c : Compiler) {d : Demand} (hop : d.op = .contains ∨ d.op = .isBlank) :
    (c.replacement? d.negated).isSome = (c.replacement? d).isSome := by
  have htarget : c.target? d.negated = c.target? d := rfl
  rw [replacement?_isSome, replacement?_isSome, htarget]
  congr 1
  funext target
  exact Mapping.supports_negate hop

theorem Flat.negated {d : Demand} (hop : d.op = .contains ∨ d.op = .isBlank) (h : c.Flat d) :
    c.Flat d.negated := by
  intro target htarget v hv
  refine h target htarget v ?_
  rw [Mapping.values_eq] at hv ⊢
  rcases hop with hop | hop <;> rw [Demand.negated, hop] at hv <;> rwa [hop]

theorem firm_replacement (hc : c.catalog.Settled) (now : Nat) {d : Demand} (hd : c.Flat d) {e : Expr}
    (he : c.replacement? d = some e) : Firm { c with now } e := by
  obtain ⟨target, htarget, hexpand⟩ := Option.bind_eq_some_iff.1 he
  have hfind := (Option.filter_eq_some_iff.1 htarget).1
  refine Mapping.of_expand? Firm.keptByJoining hexpand ?_
  intro path hpath v hv t ht
  have hleaves : Catalog.Leaves ({ c with now } : Compiler).catalog target.mapping path := hc.leaves hfind path hpath
  exact firm_term? hleaves (Mapping.filled_of_mem_values hv) (hd target htarget v hv) ht

/-- What is not rewritten at one instant is not rewritten at another. -/
theorem bind_replacement?_none {demand? : Option Demand} (now : Nat) (h : demand?.bind c.replacement? = none) :
    demand?.bind (replacement? { c with now }) = none := by
  cases demand? with
  | none => rfl
  | some d =>
    rw [Option.bind_some, ← Option.not_isSome_iff_eq_none] at h ⊢
    rwa [replacement?_isSome_at]

theorem bind_replacement?_negated {target method : String} {args : List Operand} :
    ((Clause.call target method args).demand?.map Demand.negated).bind c.replacement? = none ↔
      (Clause.call target method args).demand?.bind c.replacement? = none := by
  cases hd : (Clause.call target method args).demand? with
  | none => rfl
  | some d =>
    rw [Option.map_some, Option.bind_some, Option.bind_some, ← Option.not_isSome_iff_eq_none,
      ← Option.not_isSome_iff_eq_none, replacement?_isSome_negated c (op_of_call hd)]

/-- A clause that is kept is firm. -/
theorem firm_kept (hc : c.catalog.Lawful) (now : Nat) {clause : Clause}
    (h : clause.demand?.bind c.replacement? = none) : Firm { c with now } (.clause clause) := by
  have hlater := bind_replacement?_none now h
  have hkept : Threshold.apply c.catalog.thresholds (.clause clause) = .clause clause :=
    congrArg Expr.clause (applyClause_of_kept hc h)
  cases clause with
  | call target method args =>
    refine .call ?_ ?_
    · simp [hlater]
    · simp [bind_replacement?_negated.2 hlater]
  | compare | term =>
    refine .of_not_call (by simp [hkept]) ?_
    rw [hkept, rewritten, hlater]
    rfl

mutual

/-- A rewritten tree is firm at every instant. -/
theorem firm_rewritten (hc : c.catalog.Lawful) (hs : c.catalog.Settled) (now : Nat) : ∀ e : Expr,
    (e.EveryClause fun clause => ∀ d ∈ clause.demand?, c.Flat d) → Firm { c with now } (c.rewritten e)
  | .or items, h => by
    rw [rewritten, rewrittenAll_eq_map]
    exact .or (List.forall_mem_map.2 (firm_rewrittenAll hc hs now items h))
  | .and items, h => by
    rw [rewritten, rewrittenAll_eq_map]
    exact .and (List.forall_mem_map.2 (firm_rewrittenAll hc hs now items h))
  | .group inner, h => (firm_rewritten hc hs now inner h).group
  | .clause clause, h => by
    rw [rewritten]
    cases hr : clause.demand?.bind c.replacement? with
    | none => exact firm_kept hc now hr
    | some e =>
      obtain ⟨d, hd, he⟩ := Option.bind_eq_some_iff.1 hr
      exact firm_replacement hs now (h d hd) he
  | .not inner, h => by
    have hinner := firm_rewritten hc hs now inner h
    rcases inner.call_or_not with ⟨target, method, args, rfl⟩ | hcall
    · rw [rewritten]
      cases hr : ((Clause.call target method args).demand?.map Demand.negated).bind c.replacement? with
      | none => exact (firm_kept hc now (bind_replacement?_negated.1 hr)).not
      | some e =>
        obtain ⟨negated, hnegated, he⟩ := Option.bind_eq_some_iff.1 hr
        obtain ⟨d, hd, rfl⟩ := Option.map_eq_some_iff.1 hnegated
        exact firm_replacement hs now ((h d hd).negated (op_of_call hd)) he
    · rw [rewritten_not hcall]
      exact hinner.not

theorem firm_rewrittenAll (hc : c.catalog.Lawful) (hs : c.catalog.Settled) (now : Nat) : ∀ es : List Expr,
    (Expr.EveryClauseOf (fun clause => ∀ d ∈ clause.demand?, c.Flat d) es) →
      ∀ e ∈ es, Firm { c with now } (c.rewritten e)
  | [], _ => by simp
  | e :: es, h => List.forall_mem_cons.2 ⟨firm_rewritten hc hs now e h.1, firm_rewrittenAll hc hs now es h.2⟩

end

/-- A compiled filter compiles to itself, whenever that is, if no value that the filter names is itself a list in
braces. -/
theorem compile_compiled (d : Domain) (now now' : Nat) {text u : String}
    (hu : ∀ ps, scan text = .ok ps → Undotted (ps.map Placed.token))
    (hflat : ∀ e, Expr.parse? text = .ok e → e.EveryClause fun clause =>
      ∀ d' ∈ clause.demand?, Flat ⟨d.service.catalog, now, .keep⟩ d')
    (h : compile ⟨d.service.catalog, now, .keep⟩ text = .ok u) :
    compile ⟨d.service.catalog, now', .keep⟩ u = .ok u := by
  have hc : d.service.catalog.Lawful := lawful d
  obtain ⟨e, he, _⟩ := Outcome.bind_eq_ok_iff.1 h
  have hwf : e.WellFormed := wellFormed_of_parse? he hu
  have hrewritten := (rewritten_replaces (c := ⟨d.service.catalog, now, .keep⟩) hc e hwf).wellFormed
  have hfinal := (Expr.threshold_replaces d.service.catalog.thresholds _ hrewritten).wellFormed
  have hparse := parse?_compile rfl he hfinal h
  have hfirm := firm_rewritten (c := ⟨d.service.catalog, now, .keep⟩) hc (Catalog.settled d) now' e (hflat e he)
  have hagain := compile_keep (c := ⟨d.service.catalog, now', .keep⟩) rfl hparse
  rw [hagain, hfirm.alone, Threshold.apply_apply]
  simp

theorem compile_compiled_key_and_threshold :
    let c : Compiler := ⟨Domain.alarms.service.catalog, 0, .keep⟩
    let text := "!properties.k = \"\x7b1,2\x7d\" && currentSeverityLevel = \"4\" && " ++
      "occurredAt > \"$\x7b__now:date\x7d\""
    let u := "!(properties[\"k\"] = \"1\" || properties[\"k\"] = \"2\") && currentSeverityLevel >= \"4\" && " ++
      "occurredAt > \"1970-01-01T00:00:00.000Z\""
    (∀ ps, scan text = .ok ps → Undotted (ps.map Placed.token)) ∧
    (∀ e, Expr.parse? text = .ok e → e.EveryClause fun clause => ∀ d ∈ clause.demand?, c.Flat d) ∧
    c.compile text = .ok u ∧ compile { c with now := 1 } u = .ok u := by
  intro c text u
  have hscan : scan text = .ok [⟨0, .not⟩, ⟨1, .name "properties.k"⟩, ⟨14, .compare .eq⟩,
      ⟨16, .literal "\x7b1,2\x7d"⟩, ⟨24, .and⟩, ⟨27, .name "currentSeverityLevel"⟩, ⟨48, .compare .eq⟩,
      ⟨50, .literal "4"⟩, ⟨54, .and⟩, ⟨57, .name "occurredAt"⟩, ⟨68, .compare .gt⟩, ⟨70, .literal nowToken⟩] :=
    Outcome.toOption_eq_some_iff.1 (by decide +kernel)
  have hu : ∀ ps, scan text = .ok ps → Undotted (ps.map Placed.token) := by
    intro ps hps n hn
    rw [hscan] at hps
    cases hps
    have hmem := hn.subset (List.mem_cons_of_mem _ List.mem_cons_self)
    simp at hmem
  have hparse : Expr.parse? text = .ok (.and [.not (.clause (.compare "properties.k" .eq (.quoted "\x7b1,2\x7d"))),
      .clause (.compare "currentSeverityLevel" .eq (.quoted "4")),
      .clause (.compare "occurredAt" .gt (.quoted nowToken))]) :=
    Outcome.toOption_eq_some_iff.1 (by decide +kernel)
  have hflat : ∀ e, Expr.parse? text = .ok e → e.EveryClause fun clause => ∀ d ∈ clause.demand?, c.Flat d := by
    intro e he
    rw [hparse] at he
    cases he
    simp only [Expr.EveryClause, Expr.EveryClauseOf]
    decide +kernel
  have hcompile : c.compile text = .ok u := Outcome.toOption_eq_some_iff.1 (by decide +kernel)
  exact ⟨hu, hflat, hcompile, compile_compiled .alarms 0 1 hu hflat hcompile⟩

end Compiler
end RecordSource.Filter
