import RecordSource.Field.Catalog

/-!
The truth of an expression under an assignment of truth values to clauses. Parentheses mean nothing; joined terms
hold as their connective says; putting thresholds in is the same as reading clauses through the thresholds.
-/
namespace RecordSource.Filter
open RecordSource.Field

/-- Which clauses are true of a record. -/
abbrev Assignment := Clause → Bool

/-- The clauses that are true once thresholds are put into them. -/
def Assignment.through (rules : List Threshold) (ρ : Assignment) : Assignment :=
  fun c => ρ (Threshold.applyClause rules c)

@[simp] theorem Assignment.through_call (rules : List Threshold) (ρ : Assignment) (target method : String)
    (args : List Operand) : ρ.through rules (.call target method args) = ρ (.call target method args) := rfl

namespace Expr

mutual

def eval (ρ : Assignment) : Expr → Bool
  | or items => evalSome ρ items
  | and items => evalEvery ρ items
  | not inner => !eval ρ inner
  | group inner => eval ρ inner
  | clause c => ρ c

def evalSome (ρ : Assignment) : List Expr → Bool
  | [] => false
  | e :: es => eval ρ e || evalSome ρ es

def evalEvery (ρ : Assignment) : List Expr → Bool
  | [] => true
  | e :: es => eval ρ e && evalEvery ρ es

end

theorem evalSome_eq_any (ρ : Assignment) (es : List Expr) : evalSome ρ es = es.any (eval ρ) := by
  induction es with
  | nil => rfl
  | cons e es ih => rw [evalSome, ih, List.any_cons]

theorem evalEvery_eq_all (ρ : Assignment) (es : List Expr) : evalEvery ρ es = es.all (eval ρ) := by
  induction es with
  | nil => rfl
  | cons e es ih => rw [evalEvery, ih, List.all_cons]

/-- Items put for others, each to mean under one assignment what the other means under another. -/
theorem eval_or_map {ρ ρ' : Assignment} {f : Expr → Expr} {items : List Expr}
    (h : ∀ e ∈ items, (f e).eval ρ = e.eval ρ') : (or (items.map f)).eval ρ = (or items).eval ρ' := by
  have hvalues : (items.map f).map (eval ρ) = items.map (eval ρ') := by
    rw [List.map_map]
    exact List.map_congr_left h
  have hany := congrArg (fun bs => bs.any id) hvalues
  simpa only [List.any_map, eval, evalSome_eq_any, Function.id_comp] using hany

theorem eval_and_map {ρ ρ' : Assignment} {f : Expr → Expr} {items : List Expr}
    (h : ∀ e ∈ items, (f e).eval ρ = e.eval ρ') : (and (items.map f)).eval ρ = (and items).eval ρ' := by
  have hvalues : (items.map f).map (eval ρ) = items.map (eval ρ') := by
    rw [List.map_map]
    exact List.map_congr_left h
  have hall := congrArg (fun bs => bs.all id) hvalues
  simpa only [List.all_map, eval, evalEvery_eq_all, Function.id_comp] using hall

mutual

/-- Thresholds change what clauses say and nothing else. -/
theorem eval_threshold (ρ : Assignment) (rules : List Threshold) : ∀ e : Expr,
    (Threshold.apply rules e).eval ρ = e.eval (ρ.through rules)
  | or items => by
    rw [Threshold.apply, Threshold.applyAll_eq_map]
    exact eval_or_map (eval_thresholdAll ρ rules items)
  | and items => by
    rw [Threshold.apply, Threshold.applyAll_eq_map]
    exact eval_and_map (eval_thresholdAll ρ rules items)
  | not inner => by rw [Threshold.apply, eval, eval, eval_threshold ρ rules inner]
  | group inner => eval_threshold ρ rules inner
  | clause _ => rfl

theorem eval_thresholdAll (ρ : Assignment) (rules : List Threshold) : ∀ es : List Expr, ∀ e ∈ es,
    (Threshold.apply rules e).eval ρ = e.eval (ρ.through rules)
  | [] => by simp
  | e :: es => List.forall_mem_cons.2 ⟨eval_threshold ρ rules e, eval_thresholdAll ρ rules es⟩

end

end Expr
end RecordSource.Filter

namespace RecordSource.Field.Operator
open RecordSource.Filter
variable {α β : Type}

/-- Equality, containment and presence want a condition of some of the things they speak of, all other operators of
every one. -/
def among (op : Operator) (holds : α → Bool) (xs : List α) : Bool :=
  match op with
  | .compare .eq | .compare .eqEq | .contains | .isNotBlank => xs.any holds
  | .compare .ne | .compare .lt | .compare .le | .compare .gt | .compare .ge | .notContains | .isBlank =>
    xs.all holds

theorem among_eq (op : Operator) (holds : α → Bool) (xs : List α) :
    op.among holds xs = match op.connective with
      | .or => xs.any holds
      | .and => xs.all holds := by
  cases op with
  | compare c => cases c <;> rfl
  | contains | notContains | isBlank | isNotBlank => rfl

theorem among_map (op : Operator) (holds : β → Bool) (f : α → β) (xs : List α) :
    op.among holds (xs.map f) = op.among (fun x => holds (f x)) xs := by
  rw [among_eq, among_eq]
  cases op.connective with
  | or => exact List.any_map
  | and => exact List.all_map

theorem among_flatMap (op : Operator) (holds : β → Bool) (f : α → List β) (xs : List α) :
    op.among holds (xs.flatMap f) = op.among (fun x => op.among holds (f x)) xs := by
  simp only [among_eq]
  cases op.connective with
  | or => exact List.any_flatMap
  | and => exact List.all_flatMap

theorem among_eq_of_map_eq (op : Operator) {f : α → Bool} {g : β → Bool} {xs : List α} {ys : List β}
    (h : xs.map f = ys.map g) : op.among f xs = op.among g ys := by
  have hover := congrArg (op.among id) h
  rw [among_map, among_map] at hover
  exact hover

theorem among_congr (op : Operator) {f g : α → Bool} {xs : List α} (h : ∀ x ∈ xs, f x = g x) :
    op.among f xs = op.among g xs := op.among_eq_of_map_eq (List.map_congr_left h)

@[simp] theorem among_singleton (op : Operator) (holds : α → Bool) (x : α) : op.among holds [x] = holds x := by
  rw [among_eq]
  cases op.connective <;> simp

/-- Joined terms hold as the operator wants them to. -/
theorem eval_join? {op : Operator} {terms : List Expr} {e : Expr} (h : op.connective.join? terms = some e)
    (ρ : Assignment) : e.eval ρ = op.among (Expr.eval ρ) terms := by
  match terms, h with
  | [x], h =>
    cases h
    rw [among_singleton]
  | x :: y :: zs, h =>
    rw [among_eq]
    cases hk : op.connective with
    | or =>
      rw [hk] at h
      cases h
      exact Expr.evalSome_eq_any ρ _
    | and =>
      rw [hk] at h
      cases h
      exact Expr.evalEvery_eq_all ρ _

theorem mapM_eq_some_iff {f : α → Option β} {xs : List α} {ys : List β} :
    xs.mapM f = some ys ↔ xs.map f = ys.map some := by
  induction xs generalizing ys with
  | nil => cases ys <;> simp
  | cons x xs ih =>
    simp only [List.mapM_cons, Option.bind_eq_bind, Option.bind_eq_some_iff, Option.pure_def,
      Option.some.injEq, List.map_cons, ih]
    constructor
    · rintro ⟨y, hy, zs, hzs, rfl⟩
      rw [hy, hzs, List.map_cons]
    · intro h
      cases ys with
      | nil => cases h
      | cons y ys =>
        rw [List.map_cons, List.cons_eq_cons] at h
        exact ⟨y, h.1, ys, h.2, rfl⟩

/-- Terms for several values hold as the values ask. -/
theorem among_mapM (op : Operator) {term? : α → Option Expr} {holds : α → Bool} {ρ : Assignment} {xs : List α}
    {terms : List Expr} (h : xs.mapM term? = some terms)
    (heval : ∀ x ∈ xs, ∀ t, term? x = some t → t.eval ρ = holds x) :
    op.among (Expr.eval ρ) terms = op.among holds xs := by
  rw [mapM_eq_some_iff] at h
  apply among_eq_of_map_eq
  induction xs generalizing terms with
  | nil =>
    cases terms with
    | nil => rfl
    | cons => cases h
  | cons x xs ih =>
    cases terms with
    | nil => cases h
    | cons t ts =>
      rw [List.map_cons, List.map_cons, List.cons_eq_cons] at h
      rw [List.forall_mem_cons] at heval
      rw [List.map_cons, List.map_cons, heval.1 t h.1, ih h.2 heval.2]

end RecordSource.Field.Operator
