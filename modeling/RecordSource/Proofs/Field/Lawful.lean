import RecordSource.Service.Basic
import RecordSource.Proofs.Field.Expansion
import RecordSource.Proofs.Field.Property
import RecordSource.Proofs.Filter.WellFormed

/-!
Catalogs that speak the language of filters. In a lawful catalog a method can be called on every stored path, so all
that its mappings expand to is well-formed, and fits wherever a clause does. The catalogs of all domains are lawful.
-/
namespace RecordSource.Filter

/-- A tree that fits between any connectives and after any negation. -/
def Expr.IsItem (e : Expr) : Prop := e.WellFormed ∧ e.isChain = false

theorem Expr.isItem_clause {c : Clause} (h : c.WellFormed) : (clause c).IsItem := ⟨h, rfl⟩

theorem Expr.IsItem.not {e : Expr} (h : e.IsItem) : (Expr.not e).IsItem := ⟨⟨h.2, h.1⟩, rfl⟩

theorem Connective.join?_wellFormed_iff {k : Connective} {terms : List Expr} {e : Expr} (he : k.join? terms = some e)
    (hchain : ∀ t ∈ terms, t.isChain = false) : e.WellFormed ↔ ∀ t ∈ terms, t.WellFormed := by
  match terms, he with
  | [_], rfl => simp
  | x :: y :: zs, rfl =>
    rw [← Expr.allWellFormed_iff]
    have hlength : 2 ≤ (x :: y :: zs).length := by simp
    cases k with
    | and => exact ⟨fun h => h.2.2, fun h => ⟨hlength, hchain, h⟩⟩
    | or => exact ⟨fun h => h.2.2, fun h => ⟨hlength, fun t ht => Expr.isOr_of_isChain (hchain t ht), h⟩⟩

theorem Connective.join?_isItem {k : Connective} {terms : List Expr} {e : Expr} (he : k.join? terms = some e)
    (h : ∀ t ∈ terms, t.IsItem) : e.IsItem := by
  refine ⟨(join?_wellFormed_iff he fun t ht => (h t ht).2).2 fun t ht => (h t ht).1, ?_⟩
  match terms, he with
  | [_], rfl => exact (h _ (by simp)).2
  | _ :: _ :: _, rfl => rfl

theorem isPath_iff {path : String} :
    IsPath path ↔ IsName path.toList ∧ Reading.brackets (0, false) path.toList = (0, false) :=
  ⟨fun h => ⟨h.name, h.closed⟩, fun h => ⟨h.1, h.2⟩⟩

instance : DecidablePred IsPath := fun _ => decidable_of_iff _ isPath_iff.symm

end RecordSource.Filter

namespace RecordSource.Field
open RecordSource.Filter

/-- A field as a filter can name it: without an indexer, only characters of names. -/
def IsFieldName (field : String) : Prop := '[' ∉ field.toList → ∀ c ∈ field.toList, Token.isNameChar c = true

/-- The physical names in a mapping. -/
def Mapping.stored : Mapping → List String
  | verbatim => []
  | plain path | time path | flag path | list path | bag path => [path]
  | spread paths => paths

def Mapping.isBag : Mapping → Bool
  | bag _ => true
  | _ => false

/-- The field is a plain one. -/
def Catalog.isPlain (c : Catalog) (name : String) : Bool :=
  match c.fields.lookup name with
  | some (.plain _) => true
  | _ => false

/-- Methods can be called on all stored paths, no bag is named with an indexer, and thresholds are for plain
fields. -/
structure Catalog.Lawful (c : Catalog) : Prop where
  stored : ∀ e ∈ c.fields, ∀ path ∈ e.2.stored, IsPath path
  named : ∀ e ∈ c.fields, e.2.isBag = true → '[' ∉ e.1.toList
  raised : ∀ r ∈ c.thresholds, c.isPlain r.path = true

theorem lawful (d : Domain) : d.service.catalog.Lawful := by
  cases d <;> exact ⟨by decide +kernel, by decide +kernel, by decide +kernel⟩

/-! Expansions. -/

namespace Operator

theorem clause_isChain (op : Operator) (path value : String) : (op.clause path value).isChain = false := by
  cases op <;> rfl

/-- Only containment is asked through a method of the path. -/
theorem clause_wellFormed_iff (op : Operator) {path : String} (hpath : IsName path.toList) (value : String) :
    (op.clause path value).WellFormed ↔ (op = .contains ∨ op = .notContains → IsPath path) := by
  have hcontains : (containsCall path value).WellFormed ↔ IsPath path := by
    have hcall : IsCallName path "Contains" ↔ IsPath path := isCallName_iff_isPath hpath (by decide) (by decide)
    have hargs : ∀ v ∈ [Operand.quoted value], v.WellFormed := List.forall_mem_singleton.2 trivial
    exact (and_iff_left hargs).trans hcall
  have hblank : (blankCall path).WellFormed := by
    have hstring : IsPath "string" := by decide
    have hcall : IsCallName "string" "IsNullOrEmpty" := hstring.isCallName (by decide) (by decide)
    exact ⟨hcall, List.forall_mem_singleton.2 hpath⟩
  have hnot {call : Clause} : (Expr.not (.clause call)).WellFormed ↔ (Expr.clause call).WellFormed :=
    and_iff_right rfl
  cases op with
  | compare c =>
    have hcompare : (clause (.compare c) path value).WellFormed := ⟨hpath, trivial⟩
    simp [hcompare]
  | contains => simp [clause, hcontains]
  | notContains => simp [clause, containsCall, hnot, ← hcontains]
  | isBlank => simp [clause, hblank]
  | isNotBlank =>
    have hnotBlank : (Expr.not (blankCall path)).WellFormed := hnot.2 hblank
    simp [clause, hnotBlank]

theorem clause_isItem (op : Operator) {path : String} (h : IsPath path) (value : String) :
    (op.clause path value).IsItem :=
  ⟨(op.clause_wellFormed_iff h.name value).2 fun _ => h, op.clause_isChain path value⟩

end Operator

namespace Mapping

theorem equalsCall_isItem {path value truth : String} (h : IsPath path) (ht : truth? value = some truth) :
    (equalsCall path truth).IsItem := by
  have hcall : IsCallName path "Equals" := h.isCallName (by decide) (by decide)
  have htrue : IsName "true".toList := by decide
  have hfalse : IsName "false".toList := by decide
  refine Expr.isItem_clause ⟨hcall, List.forall_mem_singleton.2 ?_⟩
  simp only [truth?] at ht
  split at ht
  · cases ht
    exact htrue
  · split at ht
    · cases ht
      exact hfalse
    · cases ht

theorem term?_isItem {m : Mapping} {op : Operator} {path value : String} {t : Expr}
    (ht : m.term? op path value = some t) (h : IsPath path) : t.IsItem := by
  unfold term? at ht
  split at ht
  · split at ht
    · obtain ⟨truth, htruth, rfl⟩ := Option.map_eq_some_iff.1 ht
      exact equalsCall_isItem h htruth
    · obtain ⟨truth, htruth, rfl⟩ := Option.map_eq_some_iff.1 ht
      exact equalsCall_isItem h htruth
    · obtain ⟨truth, htruth, rfl⟩ := Option.map_eq_some_iff.1 ht
      exact (equalsCall_isItem h htruth).not
    · cases ht
  · obtain ⟨op', _, rfl⟩ := Option.map_eq_some_iff.1 ht
    exact op'.clause_isItem h value
  · obtain rfl := Option.some.inj ht
    exact op.clause_isItem h value

/-- What a mapping over callable paths expands to fits wherever a clause does. -/
theorem expand?_isItem {m : Mapping} {key? : Option String} {now value : String} {op : Operator} {e : Expr}
    (he : m.expand? key? now value op = some e) (h : ∀ path ∈ m.paths key?, IsPath path) : e.IsItem :=
  of_expand? (fun _ _ _ => Connective.join?_isItem) he fun path hpath _ _ _ ht => term?_isItem ht (h path hpath)

end Mapping

/-! Fields that are found. -/

namespace Catalog

theorem firstDot?_eq {cs head key : List Char} (h : firstDot? cs = some (head, key)) :
    cs = head ++ '.' :: key := by
  induction cs generalizing head with
  | nil => cases h
  | cons c cs ih =>
    unfold firstDot? at h
    split at h
    · next hc =>
      cases h
      rw [hc, List.nil_append]
    · obtain ⟨⟨before, after⟩, hrest, heq⟩ := Option.map_eq_some_iff.1 h
      cases heq
      rw [ih hrest, List.cons_append]

/-- Methods can be called on all paths of a field that is found. -/
theorem Lawful.isPath {c : Catalog} (hc : c.Lawful) {field : String} (hfield : IsFieldName field) {target : Target}
    (h : c.find? field = some target) : ∀ path ∈ target.mapping.paths target.key?, IsPath path := by
  unfold find? at h
  split at h
  · next m hm =>
    cases h
    have hstored := hc.stored _ (Keyed.mem_of_lookup hm)
    cases m with
    | verbatim | bag => simp [Mapping.paths]
    | plain | time | flag | list | spread => exact hstored
  · split at h
    · cases h
    · next head key hdot =>
      split at h
      · next path hbag =>
        split at h
        · next hkey =>
          cases h
          have hpath := hc.stored _ (Keyed.mem_of_lookup hbag)
          have hhead := hc.named _ (Keyed.mem_of_lookup hbag) rfl
          have hsplit := firstDot?_eq hdot
          have hplain : ∀ d ∈ key, Token.isNameChar d = true := by
            intro d hd
            apply hfield
            · rw [hsplit]
              simp at hhead
              simp [hhead, hkey.2.1]
            · simp [hsplit, hd]
          have hquote : '"' ∉ (String.ofList key).toList := by
            intro hmem
            have hname := hplain '"' (by simpa using hmem)
            simp [Token.isNameChar] at hname
          have hbag := hpath path (by simp [Mapping.stored])
          exact List.forall_mem_singleton.2 ((Mapping.isPath_keyPath_iff hbag _).2 (Mapping.keyCloses_of_no_quote hquote))
        · cases h
      · cases h

end Catalog
end RecordSource.Field
