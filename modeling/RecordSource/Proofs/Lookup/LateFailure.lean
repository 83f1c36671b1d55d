import RecordSource.Proofs.Lookup.Steps

/-!
Whose failure a warning tells of. Whoever is shown a table takes the warning down, and whoever is told that there is
none puts one up, so a warning is that of the latest who stopped waiting. While a good table is remembered and held, one
stands exactly if the latest had waited for an earlier load and was told late of its failure.
-/
namespace RecordSource.Lookup
variable {ε τ : Type}

namespace Shown

/-- Nothing that ends a wait. -/
def isOpen : Shown τ → Bool
  | nothing | waiting => true
  | table _ _ | noTable => false

end Shown

/-- The warning that a failed load of a cache leaves. -/
def Warning.ofFailure (words : ε → String) (name : String) (e : ε) : Warning :=
  ⟨"Warning during " ++ name ++ " query", words e⟩

namespace Cache

theorem name_settle (c : Cache ε τ) (load : Nat) (outcome : Except ε τ) : (c.settle load outcome).name = c.name := by
  unfold settle
  split <;> rfl

theorem name_look (words : ε → String) (c : Cache ε τ) (load : Nat) : (c.look words load).2.name = c.name := by
  unfold look
  split <;> rfl

theorem name_start (known : Option τ) (c : Cache ε τ) : (c.start known).name = c.name := by
  have hbind : c.bind.2.name = c.name := by
    unfold bind
    split <;> rfl
  cases known with
  | none => exact hbind
  | some t => exact (name_settle _ _ _).trans hbind

theorem warning_settle (c : Cache ε τ) (load : Nat) (outcome : Except ε τ) :
    (c.settle load outcome).warning = c.warning := by
  unfold settle
  split <;> rfl

theorem warning_start (known : Option τ) (c : Cache ε τ) : (c.start known).warning = c.warning := by
  have hbind : c.bind.2.warning = c.warning := by
    unfold bind
    split <;> rfl
  cases known with
  | none => exact hbind
  | some t => exact (warning_settle _ _ _).trans hbind

end Cache

namespace Sharing
variable {words : ε → String} {s : Sharing ε τ} {who : String} {load : Nat} {step : Step ε τ}

/-! What one look leaves. -/

theorem warning_look_of_open (h : (look words s who load).1.isOpen = true) :
    (look words s who load).2.cache.warning = s.cache.warning := by
  cases hl : s.cache.loads[load]? with
  | none => simp [look, Cache.look, hl]
  | some l =>
    cases l with
    | pending => rw [look_of_pending hl]
    | loaded t => rw [look_of_loaded hl] at h; cases h
    | failed e => rw [look_of_failed hl] at h; cases h

theorem warning_look_of_table {t : τ} {names : List String} (h : (look words s who load).1 = .table t names) :
    (look words s who load).2.cache.warning = none := by
  cases hl : s.cache.loads[load]? with
  | none => simp [look, Cache.look, hl] at h
  | some l =>
    cases l with
    | loaded t => rw [look_of_loaded hl]
    | pending => rw [look_of_pending hl] at h; cases h
    | failed e => rw [look_of_failed hl] at h; cases h

/-- A look makes the cache remember nothing new. -/
theorem memo_of_memo_look {n : Nat} (h : (look words s who load).2.cache.memo = some n) : s.cache.memo = some n := by
  by_cases hshown : (look words s who load).1 = .noTable
  · obtain ⟨e, hfailed⟩ := failed_of_look hshown
    rw [look_of_failed hfailed] at h
    simp only at h
    split at h
    · cases h
    · exact h
  · rw [← memo_look hshown, h]

/-- A table that is handed out is that of a load that has ended with it. -/
theorem served_look_cases (words : ε → String) (s : Sharing ε τ) (who : String) (load : Nat) :
    (look words s who load).2.served = s.served ∨
    ∃ t names, (look words s who load).2.served = s.served ++ [(who, load)] ∧
      (look words s who load).1 = .table t names ∧
      (look words s who load).2.cache.loads[load]? = some (.loaded t) := by
  rw [loads_look]
  cases hl : s.cache.loads[load]? with
  | none => simp [look, Cache.look, hl]
  | some l =>
    cases l with
    | pending => rw [look_of_pending hl]; exact .inl rfl
    | failed e => rw [look_of_failed hl]; exact .inl rfl
    | loaded t => rw [look_of_loaded hl]; exact .inr ⟨t, _, rfl, rfl, rfl⟩

/-! What one step leaves. -/

namespace Does
variable {p : Shown τ × Sharing ε τ}

theorem name (h : s.Does words step p) : p.2.cache.name = s.cache.name := by
  cases h with
  | ask who =>
    rw [cache_look, Cache.name_look]
    exact s.cache.name_start s.known
  | lookAgain who load _ => rw [cache_look, Cache.name_look]
  | settle load outcome => exact s.cache.name_settle load outcome
  | invalidate => rfl
  | idle => rfl

theorem warning_of_open (h : s.Does words step p) (hvalid : step.isInvalidate = false) (hopen : p.1.isOpen = true) :
    p.2.cache.warning = s.cache.warning := by
  cases h with
  | ask who => exact (warning_look_of_open hopen).trans (s.cache.warning_start s.known)
  | lookAgain who load _ => exact warning_look_of_open hopen
  | settle load outcome => exact s.cache.warning_settle load outcome
  | invalidate => cases hvalid
  | idle => rfl

theorem warning_of_table (h : s.Does words step p) {t : τ} {names : List String} (ht : p.1 = .table t names) :
    p.2.cache.warning = none := by
  cases h with
  | ask who => exact warning_look_of_table ht
  | lookAgain who load _ => exact warning_look_of_table ht
  | settle | invalidate | idle => cases ht

/-- What is remembered was so before, or is started by one who asks while nothing is. -/
theorem memo_cases (h : s.Does words step p) (hload : p.2.cache.memo = some load) :
    s.cache.memo = some load ∨ step.isAsk = true ∧ s.cache.memo = none ∧ load = s.cache.loads.length := by
  cases h with
  | ask who =>
    have hbinds : s.cache.bind.1 = load :=
      Option.some.inj ((s.cache.memo_start s.known).symm.trans (memo_of_memo_look hload))
    cases hmemo : s.cache.memo with
    | some n => exact .inl ((congrArg some (binds_of_memo hmemo).symm).trans (congrArg some hbinds))
    | none =>
      refine .inr ⟨rfl, rfl, ?_⟩
      rw [← hbinds]
      simp [Cache.bind, hmemo]
  | lookAgain who other _ => exact .inl (memo_of_memo_look hload)
  | settle other outcome => exact .inl ((s.cache.memo_settle other outcome).symm.trans hload)
  | invalidate => cases hload
  | idle => exact .inl hload

theorem served_cases (h : s.Does words step p) : p.2.served = s.served ∨
    ∃ who load t names, p.2.served = s.served ++ [(who, load)] ∧ p.1 = .table t names ∧
      p.2.cache.loads[load]? = some (.loaded t) := by
  cases h with
  | ask who => exact (served_look_cases words s.asked who s.binds).imp_right fun h => ⟨who, s.binds, h⟩
  | lookAgain who load _ => exact (served_look_cases words s who load).imp_right fun h => ⟨who, load, h⟩
  | settle | invalidate | idle => exact .inl rfl

end Does

/-- What is remembered is the latest load, and what was handed out are the tables of loads. -/
structure Orderly (s : Sharing ε τ) : Prop where
  latest : ∀ n, s.cache.memo = some n → n + 1 = s.cache.loads.length
  served : ∀ w ∈ s.served, ∃ t, s.cache.loads[w.2]? = some (.loaded t)

theorem orderly_start (name : String) (known : Option τ) :
    Orderly ({ cache := { name }, known } : Sharing ε τ) := by
  refine ⟨?_, ?_⟩
  · intro n hn
    cases hn
  · intro w hw
    cases hw

theorem Orderly.next (hs : s.Orderly) {p : Shown τ × Sharing ε τ} (h : s.Does words step p) : p.2.Orderly := by
  refine ⟨?_, ?_⟩
  · intro n hn
    rw [h.length_loads]
    rcases h.memo_cases hn with hmemo | ⟨hask, hmemo, rfl⟩
    · simp [hmemo, hs.latest n hmemo]
    · simp [hask, hmemo]
  · have hkept : ∀ w ∈ s.served, ∃ t, p.2.cache.loads[w.2]? = some (.loaded t) := by
      intro w hw
      obtain ⟨t, ht⟩ := hs.served w hw
      exact ⟨t, h.continues.ended w.2 _ ht (by simp)⟩
    rcases h.served_cases with hserved | ⟨who, load, t, _, hserved, _, hload⟩
    · rw [hserved]
      exact hkept
    · rw [hserved, List.forall_mem_append]
      exact ⟨hkept, by simpa using ⟨t, hload⟩⟩

/-! Runs. -/

theorem run_append (words : ε → String) (s : Sharing ε τ) (before after : List (Step ε τ)) :
    s.run words (before ++ after) = (s.run words before).run words after :=
  List.foldl_append

theorem Orderly.run (hs : s.Orderly) (steps : List (Step ε τ)) : (s.run words steps).Orderly := by
  induction steps generalizing s with
  | nil => exact hs
  | cons step steps ih => exact ih (hs.next (s.does_step words step))

theorem name_run (words : ε → String) (s : Sharing ε τ) (steps : List (Step ε τ)) :
    (s.run words steps).cache.name = s.cache.name := by
  induction steps generalizing s with
  | nil => rfl
  | cons step steps ih => exact (ih _).trans (s.does_step words step).name

/-- What is remembered after a run was so before, or is a load that the run started. -/
theorem memo_of_memo_run {steps : List (Step ε τ)} (h : (s.run words steps).cache.memo = some load)
    (hload : load < s.cache.loads.length) : s.cache.memo = some load := by
  induction steps generalizing s with
  | nil => exact h
  | cons step steps ih =>
    have hdoes := s.does_step words step
    have hmemo := ih h (Nat.lt_of_lt_of_le hload hdoes.continues.length_le)
    rcases hdoes.memo_cases hmemo with hmemo | ⟨_, _, hnew⟩
    · exact hmemo
    · omega

/-- No one stops waiting at these steps, and the cache is not invalidated. -/
def Silent (words : ε → String) : Sharing ε τ → List (Step ε τ) → Prop
  | _, [] => True
  | s, step :: steps =>
    step.isInvalidate = false ∧ (s.step words step).1.isOpen = true ∧ Silent words (s.step words step).2 steps

namespace Silent
variable {steps : List (Step ε τ)}

theorem warning_run (h : Silent words s steps) : (s.run words steps).cache.warning = s.cache.warning := by
  induction steps generalizing s with
  | nil => rfl
  | cons step steps ih => exact (ih h.2.2).trans ((s.does_step words step).warning_of_open h.1 h.2.1)

theorem served_run (h : Silent words s steps) : (s.run words steps).served = s.served := by
  induction steps generalizing s with
  | nil => rfl
  | cons step steps ih =>
    rw [run_cons, ih h.2.2]
    rcases (s.does_step words step).served_cases with hserved | ⟨_, _, t, names, _, ht, _⟩
    · exact hserved
    · have hopen := h.2.1
      rw [ht] at hopen
      cases hopen

end Silent

/-- A warning stood from the start, or was put up by the latest who stopped waiting. -/
theorem silent_of_warning_run {steps : List (Step ε τ)} {w : Warning}
    (h : (s.run words steps).cache.warning = some w) :
    Silent words s steps ∨ ∃ before step after, steps = before ++ step :: after ∧
      let late := (s.run words before).step words step
      late.1 = .noTable ∧ Silent words late.2 after := by
  induction steps generalizing s with
  | nil => exact .inl trivial
  | cons step steps ih =>
    rcases ih h with hsilent | ⟨before, step', after, rfl, hlate⟩
    · have hdoes := s.does_step words step
      have hwarning : (s.step words step).2.cache.warning = some w := by rw [← hsilent.warning_run, ← run_cons, h]
      cases hshown : (s.step words step).1 with
      | noTable => exact .inr ⟨[], step, steps, rfl, hshown, hsilent⟩
      | table t names =>
        rw [hdoes.warning_of_table hshown] at hwarning
        cases hwarning
      | nothing | waiting =>
        refine .inl ⟨?_, by rw [hshown]; rfl, hsilent⟩
        cases step with
        | invalidate => cases hwarning
        | _ => rfl
    · exact .inr ⟨step :: before, step', after, rfl, hlate⟩

/-- One who waited for a load that has failed puts up its warning. -/
theorem warning_lookAgain {e : ε} (hwaits : s.waiting.lookup who = some load)
    (hfailed : s.cache.loads[load]? = some (.failed e)) :
    (s.step words (.lookAgain who)).2.cache.warning = some (.ofFailure words s.cache.name e) := by
  rw [step_lookAgain hwaits, look_of_failed hfailed]
  rfl

/-- While a good table is remembered, only one who waited for another load can be told of a failure. -/
theorem Does.late_of_noTable {p : Shown τ × Sharing ε τ} (h : s.Does words step p) (hnone : p.1 = .noTable) {t : τ}
    (hmemo : s.cache.memo = some load) (hload : s.cache.loads[load]? = some (.loaded t)) :
    ∃ who earlier e, step = .lookAgain who ∧ s.waiting.lookup who = some earlier ∧
      s.cache.loads[earlier]? = some (.failed e) := by
  cases h with
  | ask who =>
    -- Who asks now is bound to the good table.
    obtain ⟨e, hfailed⟩ := failed_of_look hnone
    rw [binds_of_memo hmemo] at hfailed
    have hgood := (s.cache.continues_start s.known).ended load _ hload (by simp)
    cases hfailed.symm.trans hgood
  | lookAgain who earlier hwaits =>
    obtain ⟨e, hfailed⟩ := failed_of_look hnone
    exact ⟨who, earlier, e, rfl, hwaits, hfailed⟩
  | settle | invalidate | idle => cases hnone

/-- In the state `s` someone has waited for an earlier load than the remembered one, and is told only now that it
failed; no one stops waiting at the steps that come after. -/
structure ToldLate (words : ε → String) (s : Sharing ε τ) (who : String) (after : List (Step ε τ))
    (earlier load : Nat) (e : ε) : Prop where
  waits : s.waiting.lookup who = some earlier
  failed : s.cache.loads[earlier]? = some (.failed e)
  remembered : s.cache.memo = some load
  earlier : earlier < load
  silent : Silent words (s.step words (.lookAgain who)).2 after

theorem served_of_holders (hs : s.Orderly) (h : s.holders load ≠ []) :
    ∃ t, s.cache.loads[load]? = some (.loaded t) := by
  obtain ⟨holder, hholder⟩ := List.exists_mem_of_ne_nil _ h
  obtain ⟨w, hw, _⟩ := List.mem_map.1 hholder
  obtain ⟨hserved, hload⟩ := List.mem_filter.1 hw
  obtain rfl : w.2 = load := by simpa using hload
  exact hs.served w hserved

/-- A failure told while a table is held, and remembered still at the end, is told late. -/
theorem toldLate_of_noTable (hs : s.Orderly) {after : List (Step ε τ)} (hnone : (s.step words step).1 = .noTable)
    (hsilent : Silent words (s.step words step).2 after)
    (hmemo : (s.run words (step :: after)).cache.memo = some load)
    (hheld : (s.run words (step :: after)).holders load ≠ []) :
    ∃ who earlier e, step = .lookAgain who ∧ ToldLate words s who after earlier load e := by
  have hdoes := s.does_step words step
  -- Whoever holds the table held it before the failure was told.
  have hserved : (s.run words (step :: after)).served = s.served := by
    rw [run_cons, hsilent.served_run]
    rcases hdoes.served_cases with hserved | ⟨_, _, t, names, _, ht, _⟩
    · exact hserved
    · rw [hnone] at ht
      cases ht
  obtain ⟨t, hgood⟩ : ∃ t, s.cache.loads[load]? = some (.loaded t) := by
    refine served_of_holders hs ?_
    rwa [holders, hserved] at hheld
  have hremembered : s.cache.memo = some load := memo_of_memo_run hmemo (List.getElem?_eq_some_iff.1 hgood).1
  obtain ⟨who, earlier, e, rfl, hwaits, hfailed⟩ := hdoes.late_of_noTable hnone hremembered hgood
  have hearlier : earlier < load := by
    have hlength := hs.latest load hremembered
    have hlt := (List.getElem?_eq_some_iff.1 hfailed).1
    have hne : earlier ≠ load := by
      rintro rfl
      cases hfailed.symm.trans hgood
    omega
  exact ⟨who, earlier, e, rfl, hwaits, hfailed, hremembered, hearlier, hsilent⟩

/-- While the remembered load is a table that someone holds, a warning stands exactly if the latest who stopped waiting
was told late that an earlier load had failed, and it tells of that failure. -/
theorem warning_over_table_iff (words : ε → String) (name : String) (known : Option τ) (steps : List (Step ε τ)) :
    let start : Sharing ε τ := { cache := { name }, known }
    let s := start.run words steps
    ∀ load t, s.cache.memo = some load → s.cache.loads[load]? = some (.loaded t) → s.holders load ≠ [] → ∀ w,
      s.cache.warning = some w ↔ ∃ before who after earlier e, steps = before ++ .lookAgain who :: after ∧
        ToldLate words (start.run words before) who after earlier load e ∧ w = .ofFailure words name e := by
  intro start s load t hmemo _ hheld w
  have hlast : ∀ {before after : List (Step ε τ)} {step : Step ε τ}, steps = before ++ step :: after →
      s = (start.run words before).run words (step :: after) := by
    rintro before after step rfl
    exact run_append words start before (step :: after)
  have hwarning : ∀ {before after who earlier e}, steps = before ++ .lookAgain who :: after →
      ToldLate words (start.run words before) who after earlier load e →
      s.cache.warning = some (.ofFailure words name e) := by
    intro before after who earlier e hsteps hlate
    rw [hlast hsteps, run_cons, hlate.silent.warning_run, warning_lookAgain hlate.waits hlate.failed, name_run]
  constructor
  · intro hw
    rcases silent_of_warning_run hw with hsilent | ⟨before, step, after, hsteps, hnone, hsilent⟩
    · have hstart : s.cache.warning = none := hsilent.warning_run
      rw [hstart] at hw
      cases hw
    · have hbefore : (start.run words before).Orderly :=
        Orderly.run (orderly_start name known) before
      rw [hlast hsteps] at hmemo hheld
      obtain ⟨who, earlier, e, rfl, hlate⟩ := toldLate_of_noTable hbefore hnone hsilent hmemo hheld
      rw [hwarning hsteps hlate, Option.some.injEq] at hw
      exact ⟨before, who, after, earlier, e, hsteps, hlate, hw.symm⟩
  · rintro ⟨before, who, after, earlier, e, hsteps, hlate, rfl⟩
    exact hwarning hsteps hlate

/-- The failure of load 0 is told to `b` when load 1 has ended well and `c` holds its table. -/
theorem warning_over_table_told_late :
    let before : List (Step String Nat) :=
      [.ask "a", .ask "b", .settle 0 (.error "down"), .lookAgain "a", .ask "c", .settle 1 (.ok 7), .lookAgain "c"]
    let s := run id { cache := { name := "workspace" } } (before ++ [.lookAgain "b", .rest])
    s.cache.memo = some 1 ∧ s.cache.loads[1]? = some (.loaded 7) ∧ s.holders 1 = ["c"] ∧
    s.cache.warning = some ⟨"Warning during workspace query", "down"⟩ := by
  intro before s
  have hlate : ToldLate id (run id { cache := { name := "workspace" } } before) "b" [.rest] 0 1 "down" :=
    ⟨by decide, by decide, by decide, by decide, rfl, rfl, trivial⟩
  have hwords : (⟨"Warning during workspace query", "down"⟩ : Warning) = .ofFailure id "workspace" "down" := by decide
  have hs : s = run id { cache := { name := "workspace" } } (before ++ [.lookAgain "b", .rest]) := rfl
  rw [hs]
  refine ⟨by decide, by decide, by decide, ?_⟩
  exact (warning_over_table_iff id "workspace" none _ 1 7 (by decide) (by decide) (by decide) _).2
    ⟨before, "b", [.rest], 0, "down", rfl, hlate, hwords⟩

/-- A remembered table that someone holds need not be free of a warning. -/
theorem exists_warning_over_held_table :
    let s : Sharing String Nat := run id { cache := { name := "workspace" } }
      [.ask "a", .ask "b", .settle 0 (.error "down"), .lookAgain "a", .ask "c", .settle 1 (.ok 7), .lookAgain "c",
        .lookAgain "b"]
    s.cache.memo = some 1 ∧ s.cache.loads[1]? = some (.loaded 7) ∧ s.holders 1 ≠ [] ∧ s.cache.warning ≠ none := by
  decide

end Sharing
end RecordSource.Lookup
