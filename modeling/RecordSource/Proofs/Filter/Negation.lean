import RecordSource.Proofs.Filter.Compilation

/-!
Negated clauses. However a clause is denied, by its comparator, by a `!` before a call or by one before parentheses, what
it is transformed into holds exactly when what the clause itself is transformed into does not, for fields of any mapping
and for unknown ones.
-/
namespace RecordSource.Filter
open RecordSource.Field

/-- Inequality denies equality, and the order below a value that from it on. -/
structure Assignment.Denies (ρ : Assignment) : Prop where
  ne : ∀ path value, ρ (.compare path .ne (.quoted value)) = !ρ (.compare path .eq (.quoted value))
  lt : ∀ path value, ρ (.compare path .lt (.quoted value)) = !ρ (.compare path .ge (.quoted value))

/-- Thresholds keep to that: they put one such pair for the other. -/
theorem Assignment.Denies.through {ρ : Assignment} (h : ρ.Denies) (rules : List Threshold) (path value : String) :
    ρ.through rules (.compare path .ne (.quoted value)) = !ρ.through rules (.compare path .eq (.quoted value)) := by
  rw [Assignment.through, Assignment.through, Threshold.applyClause_compare, Threshold.applyClause_compare]
  unfold Threshold.raise
  split
  · exact h.lt path value
  · exact h.ne path value

theorem meaning_ne {ρ : Assignment} (hρ : ρ.Denies) (rules : List Threshold) (key? : Option String)
    (now value : String) (m : Mapping) :
    m.meaning rules ρ key? now value (.compare .ne) = !m.meaning rules ρ key? now value (.compare .eq) := by
  have hplain (path v : String) :
      Operator.asks rules ρ (.compare .ne) path v = !Operator.asks rules ρ (.compare .eq) path v := by
    have hthrough := hρ.through rules path v
    rwa [Assignment.through, Assignment.through, Threshold.applyClause_compare,
      Threshold.applyClause_compare] at hthrough
  refine Mapping.meaning_opposite (by decide) ?_ ?_
  · cases m <;> rfl
  · intro path v
    cases m with
    | flag | list => rfl
    | verbatim | plain | time | spread | bag => exact hplain path v

namespace Compiler

/-- Whether what a filter is transformed into holds. -/
def holds? (c : Compiler) (ρ : Assignment) (e : Expr) : Except Fault Bool :=
  (c.transform e).map fun (final, _) => final.eval ρ

/-- Two filters are transformed into opposites. -/
def Negates (c : Compiler) (ρ : Assignment) (e e' : Expr) : Prop :=
  ∃ b, c.holds? ρ e = .ok b ∧ c.holds? ρ e' = .ok (!b)

variable {c : Compiler} {ρ : Assignment}

theorem holds?_keep (hc : c.unknown = .keep) (e : Expr) :
    c.holds? ρ e = .ok ((c.rewritten e).eval (ρ.through c.catalog.thresholds)) := by
  rw [holds?, transform, expand_keep hc]
  exact congrArg Except.ok (Expr.eval_threshold ρ c.catalog.thresholds _)

theorem holds?_clause (hc : c.unknown = .keep) (clause : Clause) :
    c.holds? ρ (.clause clause) =
      .ok ((clause.demand?.bind (c.demandMeaning? ρ)).getD (ρ.through c.catalog.thresholds clause)) := by
  rw [holds?_keep hc, rewritten, bind_demandMeaning?]
  cases clause.demand?.bind c.replacement? <;> rfl

theorem demandMeaning?_ne (hρ : ρ.Denies) (c : Compiler) (field value : String) :
    c.demandMeaning? ρ ⟨field, .compare .ne, value, false⟩ =
      (c.demandMeaning? ρ ⟨field, .compare .eq, value, false⟩).map not := by
  have htarget : c.target? ⟨field, .compare .ne, value, false⟩ = c.target? ⟨field, .compare .eq, value, false⟩ := rfl
  unfold demandMeaning?
  rw [htarget]
  cases c.target? ⟨field, .compare .eq, value, false⟩ with
  | none => rfl
  | some target =>
    have hsupports : target.mapping.supports target.key? value (.compare .ne) =
        target.mapping.supports target.key? value (.compare .eq) := by
      cases target.mapping <;> rfl
    rw [Option.bind_some, Option.bind_some, hsupports]
    split
    · exact congrArg some (meaning_ne hρ _ _ _ _ _)
    · rfl

theorem negates_ne (hρ : ρ.Denies) (hc : c.unknown = .keep) (field value : String) :
    c.Negates ρ (.clause (.compare field .eq (.quoted value))) (.clause (.compare field .ne (.quoted value))) := by
  refine ⟨_, holds?_clause hc _, ?_⟩
  rw [holds?_clause hc, Clause.demand?, Clause.demand?, Option.bind_some, Option.bind_some, demandMeaning?_ne hρ,
    hρ.through]
  cases c.demandMeaning? ρ ⟨field, .compare .eq, value, false⟩ <;> rfl

/-- A `!` before a call denies it, whether the call is a demand or not. -/
theorem negates_call (hc : c.unknown = .keep) (target method : String) (args : List Operand) :
    c.Negates ρ (.clause (.call target method args)) (.not (.clause (.call target method args))) := by
  refine ⟨_, holds?_clause hc _, ?_⟩
  rw [holds?_keep hc, rewritten]
  exact congrArg Except.ok eval_replaced_not

/-- A `!` before parentheses denies what stands in them, clause by clause. -/
theorem negates_group (hc : c.unknown = .keep) (e : Expr) : c.Negates ρ e (.not (.group e)) := by
  refine ⟨_, holds?_keep hc e, ?_⟩
  rw [holds?_keep hc, rewritten_not (by simp)]
  rfl

theorem Negates.unique {e x y : Expr} (hx : c.Negates ρ e x) (hy : c.Negates ρ e y) :
    c.holds? ρ x = c.holds? ρ y := by
  obtain ⟨b, he, hx⟩ := hx
  obtain ⟨b', he', hy⟩ := hy
  rw [he, Except.ok.injEq] at he'
  rw [hx, hy, he']

/-- Where unknown fields are kept, negation is exact for every field and value, known or not: inequality is transformed
into the opposite of equality, `!` before either call into the opposite of the call, and with parentheses between them it
says the same. -/
theorem transform_negates (catalog : Catalog) (now : Nat) {ρ : Assignment} (hρ : ρ.Denies) (field value : String) :
    let c : Compiler := ⟨catalog, now, .keep⟩
    let contains := Operator.containsCall field value
    let blank := Operator.blankCall field
    c.Negates ρ (.clause (.compare field .eq (.quoted value))) (.clause (.compare field .ne (.quoted value))) ∧
    c.Negates ρ contains (.not contains) ∧ c.Negates ρ blank (.not blank) ∧
    c.holds? ρ (.not (.group contains)) = c.holds? ρ (.not contains) ∧
    c.holds? ρ (.not (.group blank)) = c.holds? ρ (.not blank) := by
  intro c contains blank
  have hcontains : c.Negates ρ contains (.not contains) := negates_call rfl _ _ _
  have hblank : c.Negates ρ blank (.not blank) := negates_call rfl _ _ _
  exact ⟨negates_ne hρ rfl field value, hcontains, hblank, (negates_group rfl contains).unique hcontains,
    (negates_group rfl blank).unique hblank⟩

/-- A field over two paths, two values, and one of them a sentinel on the second path. -/
theorem transform_negates_spread :
    let catalog : Catalog := { fields := [("f", .spread ["a", "b"])], thresholds := [⟨"b", "2"⟩] }
    let c : Compiler := ⟨catalog, 0, .keep⟩
    let ρ : Assignment := fun
      | .compare path .eq (.quoted value) => path == "a" && value == "3"
      | .compare path .ne (.quoted value) => !(path == "a" && value == "3")
      | .compare path .ge (.quoted value) => path == "b" && value == "2"
      | .compare path .lt (.quoted value) => !(path == "b" && value == "2")
      | _ => false
    ρ.Denies ∧ c.holds? ρ (.clause (.compare "f" .eq (.quoted "\x7b1,2\x7d"))) = .ok true ∧
    c.holds? ρ (.clause (.compare "f" .ne (.quoted "\x7b1,2\x7d"))) = .ok false := by
  intro catalog c ρ
  have hρ : ρ.Denies := ⟨fun _ _ => rfl, fun _ _ => rfl⟩
  have hholds : c.holds? ρ (.clause (.compare "f" .eq (.quoted "\x7b1,2\x7d"))) = .ok true :=
    Outcome.toOption_eq_some_iff.1 (by decide)
  obtain ⟨⟨b, heq, hne⟩, _⟩ := transform_negates catalog 0 hρ "f" "\x7b1,2\x7d"
  rw [hholds, Except.ok.injEq] at heq
  subst heq
  exact ⟨hρ, hholds, hne⟩

end Compiler
end RecordSource.Filter
