import RecordSource.Proofs.Field.Lawful
import RecordSource.Proofs.Filter.RoundTrip

/-!
Clauses on properties read back. All that a clause on a property of a bag expands to is well-formed, save that calls on
the property need a key that closes.
-/
namespace RecordSource.Field
open RecordSource.Filter

namespace Mapping

theorem plain?_wellFormed_iff {path value : String} {op : Operator} {e : Expr} (he : plain? path value op = some e) :
    e.WellFormed ↔ ∀ v ∈ op.values value, (op.clause path v).WellFormed := by
  unfold plain? perValue? at he
  unfold Operator.values
  split at he
  · next hblank =>
    obtain rfl := Option.some.inj he
    rw [if_pos hblank, List.forall_mem_singleton]
  · next hblank =>
    obtain ⟨terms, hterms, hjoin⟩ := Option.bind_eq_some_iff.1 he
    have hmap : ((valuesOf value).map (op.clause path)).map some = terms.map some := by
      rw [List.map_map]
      exact Operator.mapM_eq_some_iff.1 hterms
    obtain rfl := (List.map_inj_right fun _ _ => Option.some.inj).1 hmap
    rw [if_neg hblank, Connective.join?_wellFormed_iff hjoin, List.forall_mem_map]
    exact List.forall_mem_map.2 fun v _ => op.clause_isChain path v

/-- A clause on a property always expands, into a tree that is read back exactly if the clause makes no call on the
property or the key closes. -/
theorem expand?_property {path : String} (hpath : IsPath path) (key now value : String) (op : Operator) :
    ∃ e, (bag path).expand? (some key) now value op = some e ∧
      (Expr.parse? e.render = .ok e ↔ (op = .contains ∨ op = .notContains → KeyCloses key)) := by
  obtain ⟨e, he⟩ := Option.isSome_iff_exists.1 (plain?_isSome (keyPath path key) value op)
  refine ⟨e, he, ?_⟩
  have hreads : Expr.parse? e.render = .ok e ↔ e.WellFormed :=
    ⟨Expr.wellFormed_of_parse?_render, Expr.parse?_render_of_wellFormed⟩
  rw [hreads, plain?_wellFormed_iff he, ← isPath_keyPath_iff hpath]
  simp only [op.clause_wellFormed_iff (isName_keyPath hpath.name key)]
  obtain ⟨v, hv⟩ := List.exists_mem_of_ne_nil _ (op.values_ne_nil value)
  exact ⟨fun h => h v hv, fun h _ _ => h⟩

end Mapping

/-- A call falls apart at the last dot outside its indexers exactly if that is also the last dot with all brackets closed,
as it is if the indexers have neither an escaped quote nor a bracket of their own. What clauses on the properties of a
bag expand to is read back, save that calls on a property need a key that closes. -/
theorem parts_right_and_reads_back (name path key now value : String) (op : Operator) :
    (PartsRight name ↔ ∀ before after,
      LastDot Whole name.toList before after ↔ LastDot Reading.Closed name.toList before after) ∧
    (IsName name.toList → Lexeme.IsSimple .bare name.toList → PartsRight name) ∧
    (path ≠ "" → (∀ c ∈ path.toList, Token.isNameChar c = true) →
      ∃ e, (Mapping.bag path).expand? (some key) now value op = some e ∧
        (Expr.parse? e.render = .ok e ↔ (op = .contains ∨ op = .notContains → Mapping.KeyCloses key))) := by
  refine ⟨partsRight_iff, partsRight_of_isSimple, ?_⟩
  intro hne hplain
  exact Mapping.expand?_property (.of_plain hne hplain) key now value op

/-- A key whose quotes are closed again hides its bracket. -/
theorem parts_right_and_reads_back_quoted_bracket :
    let name := "p[\"x.y\"].b.Has"
    IsName name.toList ∧ Lexeme.IsSimple .bare name.toList ∧ PartsRight name ∧
    ∃ e, (Mapping.bag "a.p").expand? (some "\"]\"") "" "\x7bv,w\x7d" .notContains = some e ∧
      Expr.parse? e.render = .ok e := by
  intro name
  have hname : IsName name.toList := by decide +kernel
  have hsimple : Lexeme.IsSimple .bare name.toList := by
    simp [name, Lexeme.IsSimple, Lexeme.Place.ofIndexer, Lexeme.Place.ofQuoted]
  obtain ⟨_, hparts, hreads⟩ :=
    parts_right_and_reads_back name "a.p" "\"]\"" "" "\x7bv,w\x7d" .notContains
  obtain ⟨e, he, hiff⟩ := hreads (by decide) (List.all_eq_true.1 (by decide))
  exact ⟨hname, hsimple, hparts hname hsimple, e, he, hiff.2 fun _ => by decide +kernel⟩

/-- An escaped quote ends the key for the parting, and a dot after a bracket there parts the name inside its indexer. -/
theorem quoted_quote_parts_inside_indexer :
    let path := "p[\"\\\"].x\"]"
    let name := "p[\"\\\"].x\"].Contains"
    let call := Expr.clause (.call path "Contains" [.quoted "v"])
    tokens? name = .ok [.name name] ∧ ¬ PartsRight name ∧
    (Mapping.bag "p").expand? (some "\"].x") "" "v" .contains = some call ∧
    Expr.parse? call.render = .ok (.clause (.call "p[\"\\\"]" "x\"].Contains" [.quoted "v"])) := by
  intro path name call
  have hpath : IsName path.toList := by decide +kernel
  have hopen : ¬ IsPath path := by decide +kernel
  have hmethod : path ++ "." ++ "Contains" = name := by simp [path, name]
  have hparts : ¬ PartsRight name := by
    rw [← hmethod, partsRight_method_iff hpath (by decide)]
    exact hopen
  exact ⟨Outcome.toOption_eq_some_iff.1 (by decide +kernel), hparts, rfl,
    Outcome.toOption_eq_some_iff.1 (by decide +kernel)⟩

end RecordSource.Field
