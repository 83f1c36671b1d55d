import RecordSource.Proofs.Field.Expansion
import RecordSource.Proofs.Filter.Rewriting

/-!
What is sent as it was written. A filter is changed place by place, by its expansions and then by the thresholds, and no
change is ever taken back: not by one at another place, and not by a threshold, which puts a comparator that no
expansion puts. So the text stays as it is exactly if there is nothing to change anywhere.
-/
namespace RecordSource.Filter
open RecordSource.Field

namespace Expr

mutual

/-- The parts of a filter that are expanded each on its own: the clauses, a call together with a `!` before it. -/
def places : Expr → List Expr
  | or items => placesOf items
  | and items => placesOf items
  | group inner => places inner
  | not (clause (.call target method args)) => [not (clause (.call target method args))]
  | not inner => places inner
  | clause c => [clause c]

def placesOf : List Expr → List Expr
  | [] => []
  | e :: es => places e ++ placesOf es

end

theorem places_not {inner : Expr} (h : ∀ target method args, inner ≠ clause (.call target method args)) :
    (not inner).places = inner.places := by
  rw [places]
  exact h

/-- A clause, or a call that is denied. -/
def IsPlace (e : Expr) : Prop :=
  (∃ c, e = clause c) ∨ ∃ target method args, e = not (clause (.call target method args))

mutual

theorem isPlace_of_mem : ∀ e : Expr, ∀ p ∈ e.places, p.IsPlace
  | or items => isPlace_of_memOf items
  | and items => isPlace_of_memOf items
  | group inner => isPlace_of_mem inner
  | clause c => by
    intro p hp
    exact .inl ⟨c, List.mem_singleton.1 hp⟩
  | not inner => by
    have hinner := isPlace_of_mem inner
    rcases inner.call_or_not with ⟨target, method, args, rfl⟩ | hcall
    · intro p hp
      exact .inr ⟨target, method, args, List.mem_singleton.1 hp⟩
    · rwa [places_not hcall]

theorem isPlace_of_memOf : ∀ es : List Expr, ∀ p ∈ placesOf es, p.IsPlace
  | [] => by simp [placesOf]
  | e :: es => by
    intro p hp
    exact (List.mem_append.1 hp).elim (isPlace_of_mem e p) (isPlace_of_memOf es p)

end

/-- A change that keeps the connectives, the parentheses and the negations, save that it may take a call together with
the `!` before it. -/
structure PlaceByPlace (f : Expr → Expr) : Prop where
  or : ∀ items, f (.or items) = .or (items.map f)
  and : ∀ items, f (.and items) = .and (items.map f)
  group : ∀ inner, f (.group inner) = .group (f inner)
  not : ∀ inner, (∀ target method args, inner ≠ .clause (.call target method args)) → f (.not inner) = .not (f inner)

namespace PlaceByPlace
variable {f : Expr → Expr}

mutual

/-- Nothing is changed exactly if nothing is changed at any place. -/
theorem eq_self_iff (hf : PlaceByPlace f) : ∀ e : Expr, f e = e ↔ ∀ p ∈ e.places, f p = p
  | .or items => by rw [hf.or, Expr.or.injEq, map_eq_self_iff hf items, places]
  | .and items => by rw [hf.and, Expr.and.injEq, map_eq_self_iff hf items, places]
  | .group inner => by rw [hf.group, Expr.group.injEq, eq_self_iff hf inner, places]
  | .clause c => by rw [places, List.forall_mem_singleton]
  | .not inner => by
    have hinner := eq_self_iff hf inner
    rcases inner.call_or_not with ⟨target, method, args, rfl⟩ | hcall
    · rw [places, List.forall_mem_singleton]
    · rw [hf.not inner hcall, Expr.not.injEq, hinner, places_not hcall]

theorem map_eq_self_iff (hf : PlaceByPlace f) : ∀ es : List Expr, es.map f = es ↔ ∀ p ∈ placesOf es, f p = p
  | [] => by simp [placesOf]
  | e :: es => by
    rw [List.map_cons, List.cons.injEq, eq_self_iff hf e, map_eq_self_iff hf es, placesOf, List.forall_mem_append]

end

end PlaceByPlace

mutual

/-- The same tree over other clauses. -/
def mapClauses (f : Clause → Clause) : Expr → Expr
  | or items => or (mapClausesOf f items)
  | and items => and (mapClausesOf f items)
  | not inner => not (mapClauses f inner)
  | group inner => group (mapClauses f inner)
  | clause c => clause (f c)

def mapClausesOf (f : Clause → Clause) : List Expr → List Expr
  | [] => []
  | e :: es => mapClauses f e :: mapClausesOf f es

end

end Expr
end RecordSource.Filter

namespace RecordSource.Field
open RecordSource.Filter

/-! What a threshold changes. -/

namespace Threshold
variable {rules : List Threshold}

/-- At a sentinel, equality becomes the order from it on, and its negation the order below. -/
inductive Raises (rules : List Threshold) : Clause → Clause → Prop
  | equality {path value : String} {op : Comparator} (hop : op = .eq ∨ op = .eqEq) (h : ⟨path, value⟩ ∈ rules) :
    Raises rules (.compare path op (.quoted value)) (.compare path .ge (.quoted value))
  | inequality {path value : String} (h : ⟨path, value⟩ ∈ rules) :
    Raises rules (.compare path .ne (.quoted value)) (.compare path .lt (.quoted value))

/-- A clause is raised, or it is left as it is and no threshold is for it. -/
theorem applyClause_raises (rules : List Threshold) (c : Clause) :
    Raises rules c (applyClause rules c) ∨ applyClause rules c = c ∧ ∀ c', ¬Raises rules c c' := by
  match c with
  | .compare path op (.quoted value) =>
    rw [applyClause_compare]
    unfold raise
    by_cases hmem : ⟨path, value⟩ ∈ rules
    · rw [if_pos hmem]
      cases op with
      | eq => exact .inl (.equality (.inl rfl) hmem)
      | eqEq => exact .inl (.equality (.inr rfl) hmem)
      | ne => exact .inl (.inequality hmem)
      | lt | le | gt | ge =>
        refine .inr ⟨rfl, ?_⟩
        rintro _ (⟨hop | hop, _⟩ | _) <;> cases hop
    · rw [if_neg hmem]
      refine .inr ⟨rfl, ?_⟩
      rintro _ (⟨_, h⟩ | h)
      · exact hmem h
      · exact hmem h
  | .compare _ _ (.bare _) | .call _ _ _ | .term _ =>
    exact .inr ⟨rfl, fun _ h => nomatch h⟩

mutual

theorem apply_eq_mapClauses (rules : List Threshold) : ∀ e : Expr, apply rules e = e.mapClauses (applyClause rules)
  | .or items => by rw [apply, Expr.mapClauses, applyAll_eq_mapClausesOf rules items]
  | .and items => by rw [apply, Expr.mapClauses, applyAll_eq_mapClausesOf rules items]
  | .not inner => by rw [apply, Expr.mapClauses, apply_eq_mapClauses rules inner]
  | .group inner => by rw [apply, Expr.mapClauses, apply_eq_mapClauses rules inner]
  | .clause _ => rfl

theorem applyAll_eq_mapClausesOf (rules : List Threshold) : ∀ es : List Expr,
    applyAll rules es = Expr.mapClausesOf (applyClause rules) es
  | [] => rfl
  | e :: es => by
    rw [applyAll, Expr.mapClausesOf, apply_eq_mapClauses rules e, applyAll_eq_mapClausesOf rules es]

end

theorem exists_of_apply_eq_clause {e : Expr} {c : Clause} (h : apply rules e = .clause c) :
    ∃ c', e = .clause c' ∧ applyClause rules c' = c := by
  cases e with
  | clause c' => exact ⟨c', rfl, Expr.clause.inj h⟩
  | or | and | not | group => cases h

theorem exists_of_apply_eq_not {e inner : Expr} (h : apply rules e = .not inner) :
    ∃ inner', e = .not inner' ∧ apply rules inner' = inner := by
  cases e with
  | not inner' => exact ⟨inner', rfl, Expr.not.inj h⟩
  | or | and | group | clause => cases h

theorem eq_of_applyClause_eq_call {c : Clause} {target method : String} {args : List Operand}
    (h : applyClause rules c = .call target method args) : c = .call target method args := by
  rcases applyClause_raises rules c with hraises | ⟨hsame, _⟩
  · rw [h] at hraises
    cases hraises
  · rw [← hsame, h]

end Threshold

/-! What stands alone in the place of a demand asks with the comparator of the demand. -/

/-- If the expression is a single comparison, the operator is its comparator. -/
def Operator.KeptIn (op : Operator) (e : Expr) : Prop :=
  ∀ path c value, e = .clause (.compare path c value) → op = .compare c

theorem Operator.keptByJoining_keptIn (op : Operator) : KeptByJoining op.KeptIn := by
  intro k terms e he h
  match terms, he with
  | [_], rfl => exact h _ (by simp)
  | _ :: _ :: _, rfl =>
    intro _ _ _ heq
    cases heq

theorem Operator.keptIn_clause (op : Operator) (path value : String) : op.KeptIn (op.clause path value) := by
  intro _ c _ heq
  cases op with
  | compare c' =>
    cases heq
    rfl
  | contains | notContains | isBlank | isNotBlank => cases heq

theorem Mapping.keptIn_term? {m : Mapping} {op : Operator} {path value : String} {t : Expr}
    (ht : m.term? op path value = some t) : op.KeptIn t := by
  cases m with
  | verbatim | plain | time | spread | bag =>
    obtain rfl := Option.some.inj ht
    exact op.keptIn_clause path value
  | flag =>
    simp only [term?] at ht
    intro _ _ _ heq
    subst heq
    split at ht
    · obtain ⟨_, _, heq⟩ := Option.map_eq_some_iff.1 ht
      cases heq
    · obtain ⟨_, _, heq⟩ := Option.map_eq_some_iff.1 ht
      cases heq
    · obtain ⟨_, _, heq⟩ := Option.map_eq_some_iff.1 ht
      cases heq
    · cases ht
  | list =>
    obtain ⟨op', hop, rfl⟩ := Option.map_eq_some_iff.1 ht
    intro _ _ _ heq
    rcases Operator.ofList?_eq_some hop with rfl | rfl <;> cases heq

theorem Mapping.keptIn_expand? {m : Mapping} {key? : Option String} {now value : String} {op : Operator} {e : Expr}
    (he : m.expand? key? now value op = some e) : op.KeptIn e :=
  of_expand? op.keptByJoining_keptIn he fun _ _ _ _ _ ht => keptIn_term? ht

end RecordSource.Field

namespace RecordSource.Filter
open RecordSource.Field

namespace Compiler
variable {c : Compiler}

theorem keptIn_replacement? {d : Demand} {e : Expr} (he : c.replacement? d = some e) : d.op.KeptIn e := by
  obtain ⟨_, _, hexpand⟩ := Option.bind_eq_some_iff.1 he
  exact Mapping.keptIn_expand? hexpand

/-! No threshold takes an expansion back. -/

theorem eq_of_apply_replacement {clause : Clause} {d : Demand} (hd : clause.demand? = some d) {e : Expr}
    (he : c.replacement? d = some e) (h : Threshold.apply c.catalog.thresholds e = .clause clause) :
    e = .clause clause := by
  obtain ⟨clause', rfl, hclause⟩ := Threshold.exists_of_apply_eq_clause h
  rcases Threshold.applyClause_raises c.catalog.thresholds clause' with hraises | ⟨hsame, _⟩
  · -- Raised is a comparison with the comparator of the demand, and what is raised to is never raised from.
    rw [hclause] at hraises
    have hkept := keptIn_replacement? he
    cases hraises with
    | equality hop =>
      cases hd
      obtain rfl := Operator.compare.inj (hkept _ _ _ rfl)
      rcases hop with hop | hop <;> cases hop
    | inequality =>
      cases hd
      cases Operator.compare.inj (hkept _ _ _ rfl)
  · rw [← hsame, hclause]

theorem eq_of_apply_denied {target method : String} {args : List Operand} {e : Expr}
    (h : Threshold.apply c.catalog.thresholds e = .not (.clause (.call target method args))) :
    e = .not (.clause (.call target method args)) := by
  obtain ⟨inner, rfl, hinner⟩ := Threshold.exists_of_apply_eq_not h
  obtain ⟨clause, rfl, hclause⟩ := Threshold.exists_of_apply_eq_clause hinner
  rw [Threshold.eq_of_applyClause_eq_call hclause]

/-- A filter with every demand replaced and the thresholds in. -/
def settled (c : Compiler) (e : Expr) : Expr := Threshold.apply c.catalog.thresholds (c.rewritten e)

theorem rewritten_of_settled {p : Expr} (hp : p.IsPlace) (h : c.settled p = p) : c.rewritten p = p := by
  unfold settled at h
  rcases hp with ⟨clause, rfl⟩ | ⟨target, method, args, rfl⟩
  · rw [rewritten] at h ⊢
    cases hdemand : clause.demand? with
    | none => rfl
    | some d =>
      cases he : c.replacement? d with
      | none => rw [Option.bind_some, he, Option.getD_none]
      | some e =>
        rw [hdemand, Option.bind_some, he, Option.getD_some] at h
        rw [Option.bind_some, he, Option.getD_some]
        exact eq_of_apply_replacement hdemand he h
  · exact eq_of_apply_denied h

theorem settled_place_iff {p : Expr} (hp : p.IsPlace) :
    c.settled p = p ↔ c.rewritten p = p ∧ Threshold.apply c.catalog.thresholds p = p := by
  constructor
  · intro h
    have hrewritten := rewritten_of_settled hp h
    refine ⟨hrewritten, ?_⟩
    rwa [settled, hrewritten] at h
  · rintro ⟨hrewritten, happly⟩
    rw [settled, hrewritten, happly]

/-! Both passes work place by place. -/

theorem placeByPlace_rewritten : Expr.PlaceByPlace c.rewritten where
  or items := by rw [rewritten, rewrittenAll_eq_map]
  and items := by rw [rewritten, rewrittenAll_eq_map]
  group inner := by rw [rewritten]
  not _ h := rewritten_not h

theorem placeByPlace_settled : Expr.PlaceByPlace c.settled where
  or items := by
    rw [settled, placeByPlace_rewritten.or, Threshold.apply, Threshold.applyAll_eq_map, List.map_map]
    rfl
  and items := by
    rw [settled, placeByPlace_rewritten.and, Threshold.apply, Threshold.applyAll_eq_map, List.map_map]
    rfl
  group inner := by
    rw [settled, placeByPlace_rewritten.group, Threshold.apply]
    rfl
  not inner h := by
    rw [settled, placeByPlace_rewritten.not inner h, Threshold.apply]
    rfl

/-- A filter is left as it is exactly if neither its expansions nor the thresholds change anything at a place of it. -/
theorem settled_eq_self_iff (e : Expr) : c.settled e = e ↔
    ∀ p ∈ e.places, c.rewritten p = p ∧ Threshold.apply c.catalog.thresholds p = p := by
  rw [placeByPlace_settled.eq_self_iff]
  exact forall₂_congr fun p hp => settled_place_iff (e.isPlace_of_mem p hp)

/-- What a pass has changed, the next one does not bring back. -/
theorem changed_iff (e : Expr) : c.rewritten e ≠ e ∨ c.settled e ≠ c.rewritten e ↔ c.settled e ≠ e := by
  constructor
  · intro h hsettled
    have hrewritten : c.rewritten e = e := by
      rw [placeByPlace_rewritten.eq_self_iff]
      exact fun p hp => ((settled_eq_self_iff e).1 hsettled p hp).1
    rw [hrewritten] at h
    exact h.elim (fun hne => hne rfl) fun hne => hne hsettled
  · intro h
    by_cases hrewritten : c.rewritten e = e
    · rw [hrewritten]
      exact .inr h
    · exact .inl hrewritten

theorem transform_eq_settled (hc : c.unknown = .keep) (e : Expr) :
    c.transform e = .ok (c.settled e, decide (c.settled e ≠ e)) := by
  have hflag : (decide (c.rewritten e ≠ e) || c.settled e != c.rewritten e) = decide (c.settled e ≠ e) := by
    rw [Bool.eq_iff_iff, decide_eq_true_iff, ← changed_iff, Bool.or_eq_true, decide_eq_true_iff, bne_iff_ne]
  rw [transform, expand_keep hc, ← hflag]
  rfl

theorem compile_eq_settled (hc : c.unknown = .keep) {text : String} {e : Expr} (he : Expr.parse? text = .ok e) :
    c.compile text = .ok (if c.settled e = e then text else (c.settled e).render) := by
  simp only [compile, he, Except.bind, transform_eq_settled hc, Except.map]
  by_cases h : c.settled e = e <;> simp [h]

theorem expand_eq_self_iff (hc : c.unknown = .keep) (e : Expr) : c.expand e = .ok (e, false) ↔ c.rewritten e = e := by
  rw [expand_keep hc]
  constructor
  · intro h
    exact congrArg Prod.fst (Except.ok.inj h)
  · intro h
    simp [h]

/-- In any catalog, where unknown fields are kept, a filter that can be read is returned exactly as it was written if
the tree that its expansions and the thresholds lead to is the one that was read; else that tree is returned as text.
The changes that are told are those there are: an expansion changes the tree if it says so, and the tree comes out the
same only if at each place of it neither the expansion nor the thresholds change anything. Thresholds keep the shape of
the tree, and of its clauses they change the comparator of equality and inequality with a sentinel, and nothing else. -/
theorem compile_verbatim (catalog : Catalog) (now : Nat) {text : String} {e : Expr} (he : Expr.parse? text = .ok e) :
    let c : Compiler := ⟨catalog, now, .keep⟩
    ∃ expanded, c.expand e = .ok (expanded, decide (expanded ≠ e)) ∧
      let final := Threshold.apply catalog.thresholds expanded
      c.transform e = .ok (final, decide (final ≠ e)) ∧
      c.compile text = .ok (if final = e then text else final.render) ∧
      (final = e ↔ ∀ p ∈ e.places, c.expand p = .ok (p, false) ∧ Threshold.apply catalog.thresholds p = p) ∧
      ∃ f : Clause → Clause, (∀ e, Threshold.apply catalog.thresholds e = e.mapClauses f) ∧
        ∀ clause, Threshold.Raises catalog.thresholds clause (f clause) ∨
          f clause = clause ∧ ∀ clause', ¬Threshold.Raises catalog.thresholds clause clause' := by
  intro c
  have hc : c.unknown = .keep := rfl
  refine ⟨c.rewritten e, expand_keep hc e, transform_eq_settled hc e, compile_eq_settled hc he, ?_,
    Threshold.applyClause catalog.thresholds, Threshold.apply_eq_mapClauses catalog.thresholds,
    Threshold.applyClause_raises catalog.thresholds⟩
  refine (settled_eq_self_iff (c := c) e).trans (forall₂_congr ?_)
  intro p _
  rw [expand_eq_self_iff hc]

/-- A field whose path is its own name, and a sentinel on that path that only orders are asked with. -/
theorem compile_verbatim_path_of_same_name :
    let catalog : Catalog := { fields := [("f", .plain "f")], thresholds := [⟨"f", "4"⟩] }
    let text := "f  = \"3\" && !( f >=\"4\")"
    let read : Expr := .and [.clause (.compare "f" .eq (.quoted "3")),
      .not (.group (.clause (.compare "f" .ge (.quoted "4"))))]
    Expr.parse? text = .ok read ∧ compile ⟨catalog, 0, .keep⟩ text = .ok text := by
  intro catalog text read
  have he : Expr.parse? text = .ok read := Outcome.toOption_eq_some_iff.1 (by decide +kernel)
  obtain ⟨expanded, _, _, hcompile, hsame, _⟩ := compile_verbatim catalog 0 he
  have hfinal : Threshold.apply catalog.thresholds expanded = read := by
    refine hsame.2 (List.forall_mem_cons.2 ⟨⟨?_, by decide⟩, List.forall_mem_singleton.2 ⟨?_, by decide⟩⟩)
    · exact Outcome.toOption_eq_some_iff.1 (by decide)
    · exact Outcome.toOption_eq_some_iff.1 (by decide)
  rw [if_pos hfinal] at hcompile
  exact ⟨he, hcompile⟩

end Compiler
end RecordSource.Filter
