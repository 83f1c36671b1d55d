import RecordSource.Proofs.Filter.Evaluation

/-!
What a demand on a logical field means: a condition for each physical path with each value, wanted of some of these
pairs or of every one. The expression that a mapping makes of a demand holds exactly when the demand does.
-/
namespace RecordSource.Field
open RecordSource.Filter

/-- The comparator that the backend is asked with; at a sentinel, equality and its negation become an order. -/
def Threshold.raise (rules : List Threshold) (path value : String) (op : Comparator) : Comparator :=
  if ⟨path, value⟩ ∈ rules then
    match op with
    | .eq | .eqEq => .ge
    | .ne => .lt
    | .lt | .le | .gt | .ge => op
  else op

theorem Threshold.applyClause_compare (rules : List Threshold) (path value : String) (op : Comparator) :
    applyClause rules (.compare path op (.quoted value)) =
      .compare path (raise rules path value op) (.quoted value) := by
  have happlies : applies rules path value = true ↔ (⟨path, value⟩ : Threshold) ∈ rules := by
    simp only [applies, List.any_eq_true, Bool.and_eq_true, beq_iff_eq]
    constructor
    · rintro ⟨⟨p, s⟩, hr, rfl, rfl⟩
      exact hr
    · intro hr
      exact ⟨_, hr, rfl, rfl⟩
  unfold raise
  by_cases h : (⟨path, value⟩ : Threshold) ∈ rules
  · rw [applyClause, if_pos (happlies.2 h), if_pos h]
    cases op <;> rfl
  · rw [applyClause, if_neg (mt happlies.1 h), if_neg h]

theorem valuesOf_ne_nil (value : String) : valuesOf value ≠ [] := by
  unfold valuesOf
  split
  · simp [Text.pieces_ne_nil]
  · simp

namespace Operator

/-- What the backend is asked of one path and one value. -/
def asks (rules : List Threshold) (ρ : Assignment) (op : Operator) (path value : String) : Bool :=
  match op with
  | compare c => ρ (.compare path (Threshold.raise rules path value c) (.quoted value))
  | contains => ρ (.call path "Contains" [.quoted value])
  | notContains => !ρ (.call path "Contains" [.quoted value])
  | isBlank => ρ (.call "string" "IsNullOrEmpty" [.bare path])
  | isNotBlank => !ρ (.call "string" "IsNullOrEmpty" [.bare path])

theorem eval_clause (rules : List Threshold) (ρ : Assignment) (op : Operator) (path value : String) :
    (op.clause path value).eval (ρ.through rules) = op.asks rules ρ path value := by
  cases op with
  | compare c =>
    rw [clause, Expr.eval, Assignment.through, Threshold.applyClause_compare]
    rfl
  | contains | notContains | isBlank | isNotBlank => rfl

/-- The values that a text names; a blank check looks at none of them. -/
def values (op : Operator) (value : String) : List String := if op.isBlankCheck then [value] else valuesOf value

theorem values_ne_nil (op : Operator) (value : String) : op.values value ≠ [] := by
  unfold values
  split
  · simp
  · exact valuesOf_ne_nil value

/-- How an operator asks a list: for containment, whatever way it is put. -/
def ofList? : Operator → Option Operator
  | compare .eq | compare .eqEq | contains => some contains
  | compare .ne | notContains => some notContains
  | _ => none

theorem ofList?_connective {op op' : Operator} (h : op.ofList? = some op') :
    op'.connective = op.connective ∧ op'.isBlankCheck = op.isBlankCheck := by
  cases op with
  | compare c => cases c <;> cases h <;> exact ⟨rfl, rfl⟩
  | contains | notContains => cases h; exact ⟨rfl, rfl⟩
  | isBlank | isNotBlank => cases h

theorem ofList?_eq_some {op op' : Operator} (h : op.ofList? = some op') : op' = contains ∨ op' = notContains := by
  unfold ofList? at h
  split at h <;> cases h <;> simp

end Operator

namespace Mapping

/-- The physical paths of a field, or of one property of a bag. -/
def paths (key? : Option String) (m : Mapping) : List String :=
  match m, key? with
  | plain path, none | time path, none | flag path, none | list path, none => [path]
  | spread paths, none => paths
  | bag path, some key => [keyPath path key]
  | _, _ => []

/-- The values that a demand names. -/
def values (now value : String) (op : Operator) : Mapping → List String
  | time _ => op.values (fillNow now value)
  | _ => op.values value

/-- Which operators and values a mapping can put to the backend. -/
def answers (value : String) (op : Operator) : Mapping → Bool
  | list _ => op.ofList?.isSome
  | flag _ => match op with
    | .compare .eq | .compare .eqEq | .compare .ne => (op.values value).all fun v => (truth? v).isSome
    | _ => false
  | _ => true

def supports (key? : Option String) (value : String) (op : Operator) (m : Mapping) : Bool :=
  !(m.paths key?).isEmpty && m.answers value op

/-- What the backend is asked of one path and one value of a field. -/
def asks (rules : List Threshold) (ρ : Assignment) (op : Operator) (m : Mapping) (path value : String) : Bool :=
  match m with
  | flag _ =>
    let equals := ρ (.call path "Equals" [.bare ((truth? value).getD "")])
    if op = .compare .ne then !equals else equals
  | list _ => (op.ofList?.getD op).asks rules ρ path value
  | _ => op.asks rules ρ path value

/-- Every path with every value. -/
def pairs (key? : Option String) (now value : String) (op : Operator) (m : Mapping) : List (String × String) :=
  (m.paths key?).flatMap fun path => (m.values now value op).map fun v => (path, v)

/-- What a supported demand means. -/
def meaning (rules : List Threshold) (ρ : Assignment) (key? : Option String) (now value : String) (op : Operator)
    (m : Mapping) : Bool :=
  op.among (fun p => m.asks rules ρ op p.1 p.2) (m.pairs key? now value op)

theorem meaning_eq (rules : List Threshold) (ρ : Assignment) (key? : Option String) (now value : String)
    (op : Operator) (m : Mapping) :
    m.meaning rules ρ key? now value op =
      op.among (fun path => op.among (m.asks rules ρ op path) (m.values now value op)) (m.paths key?) := by
  rw [meaning, pairs, Operator.among_flatMap]
  apply Operator.among_congr
  intro path _
  exact Operator.among_map op _ _ _

theorem supports_negate {op : Operator} (hop : op = .contains ∨ op = .isBlank) {m : Mapping}
    {key? : Option String} {value : String} : m.supports key? value op.negate = m.supports key? value op := by
  rcases hop with rfl | rfl <;> cases m <;> rfl

/-- What asks the opposite of each path and value, and wants it of every one where the other wants it of some, means the
opposite. -/
theorem meaning_opposite {rules : List Threshold} {ρ : Assignment} {key? : Option String} {now value : String}
    {op op' : Operator} {m : Mapping} (hconnective : op'.connective ≠ op.connective)
    (hvalues : m.values now value op' = m.values now value op)
    (hasks : ∀ path v, m.asks rules ρ op' path v = !m.asks rules ρ op path v) :
    m.meaning rules ρ key? now value op' = !m.meaning rules ρ key? now value op := by
  rw [meaning, meaning, pairs, pairs, hvalues, Operator.among_eq, Operator.among_eq]
  simp only [hasks]
  cases hk : op.connective with
  | or =>
    cases hk' : op'.connective with
    | or => exact absurd (hk'.trans hk.symm) hconnective
    | and => exact List.not_any_eq_all_not.symm
  | and =>
    cases hk' : op'.connective with
    | or => exact List.not_all_eq_any_not.symm
    | and => exact absurd (hk'.trans hk.symm) hconnective

/-- Denying a supported call means the opposite of it. -/
theorem meaning_negate {op : Operator} (hop : op = .contains ∨ op = .isBlank) {m : Mapping} {key? : Option String}
    {value : String} (hm : m.supports key? value op = true) (now : String) (rules : List Threshold) (ρ : Assignment) :
    m.meaning rules ρ key? now value op.negate = !m.meaning rules ρ key? now value op := by
  have hanswers : m.answers value op = true := by
    rw [supports, Bool.and_eq_true] at hm
    exact hm.2
  have hconnective : op.negate.connective ≠ op.connective := by
    rcases hop with rfl | rfl <;> decide
  have hvalues : m.values now value op.negate = m.values now value op := by
    rcases hop with rfl | rfl <;> cases m <;> rfl
  refine meaning_opposite hconnective hvalues ?_
  intro path v
  cases m with
  | flag _ => rcases hop with rfl | rfl <;> cases hanswers
  | list _ =>
    rcases hop with rfl | rfl
    · rfl
    · cases hanswers
  | _ => rcases hop with rfl | rfl <;> simp [asks, Operator.asks, Operator.negate]

/-! What the expansions mean. -/

theorem join?_isSome (k : Connective) (terms : List Expr) : (k.join? terms).isSome = !terms.isEmpty := by
  match terms with
  | [] => rfl
  | [_] => rfl
  | _ :: _ :: _ => rfl

theorem mapM_isSome {α β : Type} (f : α → Option β) (xs : List α) :
    (xs.mapM f).isSome = xs.all fun x => (f x).isSome := by
  induction xs with
  | nil => rfl
  | cons x xs ih =>
    rw [List.mapM_cons, List.all_cons, ← ih]
    cases f x with
    | none => rfl
    | some y => cases xs.mapM f <;> rfl

/-- Terms for several things can be joined if there are any, each of the things with a term. -/
theorem joined_isSome {α : Type} (k : Connective) (term? : α → Option Expr) (xs : List α) :
    ((xs.mapM term?).bind k.join?).isSome = (!xs.isEmpty && xs.all fun x => (term? x).isSome) := by
  rw [← mapM_isSome]
  cases h : xs.mapM term? with
  | none => simp
  | some terms =>
    have hlength := congrArg List.length (Operator.mapM_eq_some_iff.1 h)
    simp only [List.length_map] at hlength
    have hempty : xs.isEmpty = terms.isEmpty := by
      rw [Bool.eq_iff_iff, List.isEmpty_iff_length_eq_zero, List.isEmpty_iff_length_eq_zero, hlength]
    rw [Option.bind_some, join?_isSome, hempty, Option.isSome_some, Bool.and_true]

theorem perValue?_isSome (op : Operator) (value : String) (term? : String → Option Expr) :
    (perValue? op value term?).isSome = (op.values value).all fun v => (term? v).isSome := by
  rw [perValue?, Operator.values]
  split
  · simp
  · simp [joined_isSome, valuesOf_ne_nil]

theorem plain?_isSome (path value : String) (op : Operator) : (plain? path value op).isSome = true := by
  simp [plain?, perValue?_isSome]

theorem list?_eq (path value : String) (op : Operator) :
    list? path value op = op.ofList?.bind fun op' => plain? path value op' := by
  cases op with
  | compare c => cases c <;> rfl
  | contains | notContains | isBlank | isNotBlank => rfl

/-- What a demand becomes on one path. -/
def onPath? (now value : String) (op : Operator) (m : Mapping) (path : String) : Option Expr :=
  match m with
  | flag _ => flag? path value op
  | list _ => list? path value op
  | time _ => plain? path (fillNow now value) op
  | _ => plain? path value op

theorem expand?_eq (m : Mapping) (key? : Option String) (now value : String) (op : Operator) :
    m.expand? key? now value op = ((m.paths key?).mapM (m.onPath? now value op)).bind op.connective.join? := by
  have hone : ∀ (term? : String → Option Expr) (path : String),
      ([path].mapM term?).bind op.connective.join? = term? path := by
    intro term? path
    rw [List.mapM_cons, List.mapM_nil]
    cases term? path <;> rfl
  cases m with
  | verbatim => cases key? <;> rfl
  | spread paths => cases key? <;> rfl
  | plain path | time path | flag path | list path =>
    cases key? with
    | none =>
      rw [paths, hone]
      rfl
    | some => rfl
  | bag path =>
    cases key? with
    | none => rfl
    | some key =>
      rw [paths, hone]
      rfl

theorem onPath?_isSome (m : Mapping) (now value : String) (op : Operator) (path : String) :
    (m.onPath? now value op path).isSome = m.answers value op := by
  cases m with
  | verbatim | plain | time | bag | spread => exact plain?_isSome path _ op
  | list =>
    rw [onPath?, list?_eq, answers]
    cases op.ofList? with
    | none => rfl
    | some op' => exact plain?_isSome path value op'
  | flag =>
    cases op with
    | compare c => cases c <;> simp [onPath?, answers, flag?, perValue?_isSome, Comparator.isEquality]
    | contains | notContains | isBlank | isNotBlank => rfl

/-- A mapping expands exactly what it supports. -/
theorem expand?_isSome (m : Mapping) (key? : Option String) (now value : String) (op : Operator) :
    (m.expand? key? now value op).isSome = m.supports key? value op := by
  rw [expand?_eq, joined_isSome, supports]
  simp only [onPath?_isSome]
  cases m.paths key? with
  | nil => rfl
  | cons path paths => cases m.answers value op <;> simp

variable {rules : List Threshold} {ρ : Assignment}

theorem eval_perValue? {op : Operator} {value : String} {term? : String → Option Expr} {e : Expr}
    (h : perValue? op value term? = some e) {holds : String → Bool}
    (heval : ∀ v t, term? v = some t → t.eval ρ = holds v) : e.eval ρ = op.among holds (op.values value) := by
  unfold perValue? at h
  unfold Operator.values
  split at h
  · next hblank => rw [if_pos hblank, Operator.among_singleton, heval value e h]
  · next hblank =>
    obtain ⟨terms, hterms, hjoin⟩ := Option.bind_eq_some_iff.1 h
    rw [if_neg hblank, Operator.eval_join? hjoin, Operator.among_mapM op hterms]
    intro v _ t ht
    exact heval v t ht

theorem eval_plain? {path value : String} {op : Operator} {e : Expr} (h : plain? path value op = some e) :
    e.eval (ρ.through rules) =
      op.among (op.asks rules ρ path) (op.values value) := by
  apply eval_perValue? h
  intro v t ht
  obtain rfl := Option.some.inj ht
  exact Operator.eval_clause rules ρ op path v

theorem eval_flag? {path value : String} {op : Operator} {e : Expr} (h : flag? path value op = some e) :
    e.eval (ρ.through rules) =
      op.among ((flag path).asks rules ρ op path) (op.values value) := by
  cases op with
  | contains | notContains | isBlank | isNotBlank => cases h
  | compare c =>
    simp only [flag?] at h
    split at h
    · next hc =>
      apply eval_perValue? h
      intro v t ht
      obtain ⟨truth, htruth, rfl⟩ := Option.map_eq_some_iff.1 ht
      simp [asks, hc, htruth, Expr.eval, equalsCall]
    · next hc =>
      split at h
      · apply eval_perValue? h
        intro v t ht
        obtain ⟨truth, htruth, rfl⟩ := Option.map_eq_some_iff.1 ht
        simp [asks, hc, htruth, Expr.eval, equalsCall]
      · cases h

theorem eval_list? {path value : String} {op : Operator} {e : Expr} (h : list? path value op = some e) :
    e.eval (ρ.through rules) =
      op.among ((list path).asks rules ρ op path) (op.values value) := by
  rw [list?_eq] at h
  obtain ⟨op', hop, hplain⟩ := Option.bind_eq_some_iff.1 h
  obtain ⟨hconnective, hblank⟩ := Operator.ofList?_connective hop
  have hasks : (list path).asks rules ρ op path = op'.asks rules ρ path := by
    funext v
    simp only [asks, hop, Option.getD_some]
  rw [eval_plain? hplain, hasks, Operator.among_eq, Operator.among_eq, hconnective, Operator.values, Operator.values,
    hblank]

theorem eval_onPath? {m : Mapping} {now value path : String} {op : Operator} {e : Expr}
    (h : m.onPath? now value op path = some e) :
    e.eval (ρ.through rules) =
      op.among (m.asks rules ρ op path) (m.values now value op) := by
  cases m with
  | verbatim | plain | time | bag | spread => exact eval_plain? h
  | flag => exact eval_flag? h
  | list => exact eval_list? h

/-- An expansion holds exactly when the demand does. -/
theorem eval_expand? {m : Mapping} {key? : Option String} {now value : String} {op : Operator} {e : Expr}
    (h : m.expand? key? now value op = some e) :
    e.eval (ρ.through rules) = m.meaning rules ρ key? now value op := by
  rw [expand?_eq] at h
  obtain ⟨terms, hterms, hjoin⟩ := Option.bind_eq_some_iff.1 h
  rw [meaning_eq, Operator.eval_join? hjoin, Operator.among_mapM op hterms]
  intro path _ t ht
  exact eval_onPath? ht

end Mapping
end RecordSource.Field
