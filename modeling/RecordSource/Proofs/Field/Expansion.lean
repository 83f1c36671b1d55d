import RecordSource.Proofs.Field.Meaning

/-!
The terms of an expansion. A mapping makes one term of each value on each path and joins them, so whatever joining
keeps holds of an expansion if it holds of these terms.
-/
namespace RecordSource.Field
open RecordSource.Filter

/-- Joined terms have the property if each of them has it. -/
def KeptByJoining (P : Expr → Prop) : Prop :=
  ∀ (k : Connective) (terms : List Expr) (e : Expr), k.join? terms = some e → (∀ t ∈ terms, P t) → P e

namespace Mapping

/-- The value of a demand with the instants in it. -/
def filled (now value : String) : Mapping → String
  | time _ => fillNow now value
  | _ => value

/-- What one value on one path becomes. -/
def term? (op : Operator) (m : Mapping) (path value : String) : Option Expr :=
  match m with
  | flag _ => match op with
    | .compare .eq | .compare .eqEq => (truth? value).map (equalsCall path)
    | .compare .ne => (truth? value).map fun t => .not (equalsCall path t)
    | _ => none
  | list _ => op.ofList?.map fun op' => op'.clause path value
  | _ => some (op.clause path value)

theorem values_eq (m : Mapping) (now value : String) (op : Operator) :
    m.values now value op = op.values (m.filled now value) := by
  cases m <;> rfl

theorem perValue?_none (op : Operator) (value : String) : perValue? op value (fun _ => none) = none := by
  have hnone := perValue?_isSome op value fun _ => none
  obtain ⟨v, vs, hvs⟩ := List.exists_cons_of_ne_nil (op.values_ne_nil value)
  simpa [hvs] using hnone

theorem onPath?_eq (m : Mapping) (now value : String) (op : Operator) (path : String) :
    m.onPath? now value op path = perValue? op (m.filled now value) (m.term? op path) := by
  cases m with
  | verbatim | plain | time | spread | bag => rfl
  | flag p =>
    cases op with
    | compare c =>
      cases c with
      | eq | eqEq | ne => rfl
      | lt | le | gt | ge => exact (perValue?_none _ value).symm
    | contains | notContains | isBlank | isNotBlank => exact (perValue?_none _ value).symm
  | list p =>
    rw [onPath?, list?_eq]
    have hterm : (list p).term? op path = fun v => op.ofList?.map fun op' => op'.clause path v := rfl
    rw [hterm]
    cases hop : op.ofList? with
    | none => exact (perValue?_none op value).symm
    | some op' =>
      obtain ⟨hconnective, hblank⟩ := Operator.ofList?_connective hop
      rw [Option.bind_some, plain?, perValue?, perValue?, hconnective, hblank]
      rfl

variable {P : Expr → Prop}

theorem of_joined {α : Type} (hP : KeptByJoining P) {k : Connective} {term? : α → Option Expr} {xs : List α} {e : Expr}
    (he : (xs.mapM term?).bind k.join? = some e) (h : ∀ x ∈ xs, ∀ t, term? x = some t → P t) : P e := by
  obtain ⟨terms, hterms, hjoin⟩ := Option.bind_eq_some_iff.1 he
  rw [Operator.mapM_eq_some_iff] at hterms
  refine hP k terms e hjoin ?_
  intro t ht
  have hmem : some t ∈ xs.map term? := by
    rw [hterms]
    exact List.mem_map_of_mem ht
  obtain ⟨x, hx, hxt⟩ := List.mem_map.1 hmem
  exact h x hx t hxt

theorem of_perValue? (hP : KeptByJoining P) {op : Operator} {value : String} {term? : String → Option Expr} {e : Expr}
    (he : perValue? op value term? = some e) (h : ∀ v ∈ op.values value, ∀ t, term? v = some t → P t) : P e := by
  unfold perValue? at he
  unfold Operator.values at h
  split at he
  · next hblank =>
    rw [if_pos hblank] at h
    exact h value (by simp) e he
  · next hblank =>
    rw [if_neg hblank] at h
    exact of_joined hP he h

/-- What joining keeps holds of an expansion if it holds of what each value on each path becomes. -/
theorem of_expand? (hP : KeptByJoining P) {m : Mapping} {key? : Option String} {now value : String} {op : Operator}
    {e : Expr} (he : m.expand? key? now value op = some e)
    (h : ∀ path ∈ m.paths key?, ∀ v ∈ m.values now value op, ∀ t, m.term? op path v = some t → P t) : P e := by
  rw [expand?_eq] at he
  refine of_joined hP he ?_
  intro path hpath t ht
  rw [onPath?_eq] at ht
  rw [values_eq] at h
  exact of_perValue? hP ht (h path hpath)

end Mapping
end RecordSource.Field
