import RecordSource.Proofs.Lookup.LateFailure
import RecordSource.Proofs.Lookup.SingleFlight

/-!
What makes the cache forget. A load that is remembered stays so until the cache is invalidated or someone is shown that
this very load has failed. So an old failure never costs a newer load, and no one who asks later is bound to a load that
was seen to fail.
-/
namespace RecordSource.Lookup
variable {ε τ : Type}

namespace Cache
variable {c : Cache ε τ} {load : Nat} {e : ε}

/-! Asking makes no load fail. -/

theorem failed_of_bind (h : c.bind.2.loads[load]? = some (.failed e)) : c.loads[load]? = some (.failed e) := by
  unfold bind at h
  split at h
  · exact h
  · rw [List.getElem?_append] at h
    split at h
    · exact h
    · rw [List.getElem?_singleton] at h
      split at h <;> cases h

theorem failed_of_settle_ok {other : Nat} {t : τ}
    (h : (c.settle other (.ok t)).loads[load]? = some (.failed e)) : c.loads[load]? = some (.failed e) := by
  unfold settle at h
  split at h
  · by_cases hother : other = load
    · rw [List.getElem?_set, if_pos hother] at h
      split at h <;> cases h
    · rwa [List.getElem?_set_ne hother] at h
  · exact h

theorem failed_of_start {known : Option τ} (h : (c.start known).loads[load]? = some (.failed e)) :
    c.loads[load]? = some (.failed e) := by
  cases known with
  | none => exact failed_of_bind h
  | some t => exact failed_of_bind (failed_of_settle_ok h)

end Cache

namespace Sharing
variable {words : ε → String} {s : Sharing ε τ} {who : String} {load : Nat} {step : Step ε τ}

/-! Who looks at what. -/

/-- The load that one looks at in a step: who asks at the one it is bound to, who looks again at the one it waits
for. -/
def looksAt? (s : Sharing ε τ) : Step ε τ → Option Nat
  | .ask _ => some s.binds
  | .lookAgain who => s.waiting.lookup who
  | .giveUp _ | .settle _ _ | .invalidate | .rest => none

/-- Someone looks at a load that has failed. -/
structure SeesFailure (s : Sharing ε τ) (step : Step ε τ) (load : Nat) : Prop where
  looks : s.looksAt? step = some load
  failed : ∃ e, s.cache.loads[load]? = some (.failed e)

/-- Seeing a failure is one look at the load; nothing was started for it. -/
theorem SeesFailure.step_eq (h : s.SeesFailure step load) (words : ε → String) :
    ∃ (asked : Sharing ε τ) (who : String), asked.cache.memo = s.cache.memo ∧
      asked.cache.loads[load]? = s.cache.loads[load]? ∧ s.step words step = look words asked who load := by
  obtain ⟨hlooks, e, hfailed⟩ := h
  cases step with
  | ask who =>
    obtain rfl : s.binds = load := Option.some.inj hlooks
    have hkept : s.asked.cache.loads[s.binds]? = some (.failed e) :=
      (s.cache.continues_start s.known).ended s.binds _ hfailed (by simp)
    refine ⟨s.asked, who, ?_, hkept.trans hfailed.symm, step_ask⟩
    cases hmemo : s.cache.memo with
    | some n => exact (s.cache.memo_start s.known).trans (congrArg some (binds_of_memo hmemo))
    | none =>
      have hnew := hkept.symm.trans (Cache.loads_start hmemo s.known)
      cases hknown : s.known <;> simp [hknown] at hnew
  | lookAgain who => exact ⟨s, who, rfl, rfl, step_lookAgain hlooks⟩
  | giveUp | settle | invalidate | rest => cases hlooks

/-- Who sees a failure makes the cache forget this load, and no other. -/
theorem SeesFailure.memo (h : s.SeesFailure step load) (words : ε → String) :
    (s.step words step).2.cache.memo = if s.cache.memo = some load then none else s.cache.memo := by
  obtain ⟨asked, who, hmemo, hloads, hstep⟩ := h.step_eq words
  obtain ⟨e, hfailed⟩ := h.failed
  rw [hstep, look_of_failed (hloads.trans hfailed)]
  simp only [hmemo]

theorem SeesFailure.shown (h : s.SeesFailure step load) (words : ε → String) : (s.step words step).1 = .noTable := by
  obtain ⟨asked, who, _, hloads, hstep⟩ := h.step_eq words
  obtain ⟨e, hfailed⟩ := h.failed
  rw [hstep, look_of_failed (hloads.trans hfailed)]

/-- Who is told that there is no table sees a failure. -/
theorem seesFailure_of_noTable (h : (s.step words step).1 = .noTable) : ∃ load, s.SeesFailure step load := by
  have hdoes := s.does_step words step
  generalize s.step words step = p at h hdoes
  cases hdoes with
  | ask who =>
    obtain ⟨e, hfailed⟩ := failed_of_look h
    exact ⟨s.binds, rfl, e, Cache.failed_of_start hfailed⟩
  | lookAgain who load hwaits => exact ⟨load, hwaits, failed_of_look h⟩
  | settle | invalidate | idle => cases h

/-- What is remembered stays so, unless the cache is invalidated or this load is seen to have failed. -/
theorem memo_step_iff (words : ε → String) (hmemo : s.cache.memo = some load) (step : Step ε τ) :
    (s.step words step).2.cache.memo = some load ↔ step.isInvalidate = false ∧ ¬ s.SeesFailure step load := by
  constructor
  · intro hkept
    refine ⟨?_, ?_⟩
    · cases step with
      | invalidate => cases hkept
      | _ => rfl
    · intro hsees
      rw [hsees.memo words, if_pos hmemo] at hkept
      cases hkept
  · rintro ⟨hvalid, hunseen⟩
    by_cases hshown : (s.step words step).1 = .noTable
    · obtain ⟨other, hsees⟩ := seesFailure_of_noTable hshown
      have hother : s.cache.memo ≠ some other := by
        rw [hmemo, ne_eq, Option.some.injEq]
        rintro rfl
        exact hunseen hsees
      rw [hsees.memo words, if_neg hother, hmemo]
    · exact (s.does_step words step).memo hvalid hshown hmemo

theorem Orderly.sound (hs : s.Orderly) : s.cache.Sound :=
  fun n hn => Nat.lt_of_succ_le (Nat.le_of_eq (hs.latest n hn))

/-! Loads that were seen to fail, and loads that have succeeded. -/

/-- A load that is seen to fail is behind whatever is remembered afterwards, now and later. -/
theorem SeesFailure.lt_binds (h : s.SeesFailure step load) (hs : s.Orderly) (later : List (Step ε τ)) :
    load < ((s.step words step).2.run words later).binds := by
  obtain ⟨e, hfailed⟩ := h.failed
  have hlt : load < s.cache.loads.length := (List.getElem?_eq_some_iff.1 hfailed).1
  have hdoes := s.does_step words step
  have hafter := Nat.lt_of_lt_of_le hlt hdoes.continues.length_le
  have hlater := Nat.lt_of_lt_of_le hafter (continues_run words (s.step words step).2 later).length_le
  have horderly : ((s.step words step).2.run words later).Orderly := (hs.next hdoes).run later
  cases hmemo : ((s.step words step).2.run words later).cache.memo with
  | none => simpa [binds, Cache.bind, hmemo] using hlater
  | some n =>
    rw [binds_of_memo hmemo]
    have hlatest := horderly.latest n hmemo
    have hne : n ≠ load := by
      rintro rfl
      have hkept := memo_of_memo_run hmemo hafter
      rw [h.memo words] at hkept
      split at hkept <;> simp_all
    omega

/-- While no one invalidates the cache, it goes on remembering a load that has succeeded. -/
theorem memo_run_of_loaded {t : τ} (hmemo : s.cache.memo = some load)
    (hload : s.cache.loads[load]? = some (.loaded t)) {later : List (Step ε τ)}
    (hlater : ∀ step ∈ later, step.isInvalidate = false) : (s.run words later).cache.memo = some load := by
  induction later generalizing s with
  | nil => exact hmemo
  | cons step later ih =>
    rw [List.forall_mem_cons] at hlater
    have hkept := (s.does_step words step).continues.ended load _ hload (by simp)
    refine ih ((memo_step_iff words hmemo step).2 ⟨hlater.1, ?_⟩) hkept hlater.2
    rintro ⟨_, e, hfailed⟩
    cases hfailed.symm.trans hload

/-- An invalidation is never undone: what was remembered before is not remembered again. -/
theorem memo_run_ne_of_invalidate (hs : s.cache.Sound) (hmemo : s.cache.memo = some load) {later : List (Step ε τ)}
    (hlater : ∃ step ∈ later, step.isInvalidate = true) : (s.run words later).cache.memo ≠ some load := by
  obtain ⟨step, hstep, hinvalid⟩ := hlater
  obtain ⟨before, after, rfl⟩ := List.append_of_mem hstep
  obtain rfl : step = .invalidate := by
    cases step with
    | invalidate => rfl
    | _ => cases hinvalid
  intro hagain
  rw [run_append, run_cons] at hagain
  have hlength := (continues_run words s before).length_le
  have hnone := memo_of_memo_run hagain (Nat.lt_of_lt_of_le (hs load hmemo) hlength)
  cases hnone

/-- Every look of one who asks is at the load it was bound to. -/
theorem Looks.looksAt {before : Sharing ε τ} (h : Looks words who s before step) (hs : s.cache.Sound) :
    before.looksAt? step = some s.binds := by
  cases h with
  | first => rfl
  | @again before step h hwaiting others hothers =>
    exact (lookup_waiting_run hothers _).trans ((h.looked hs).waits hwaiting)

theorem loads_step_ask (words : ε → String) (who : String) (h : s.cache.memo = none) :
    (s.step words (.ask who)).2.cache.loads = s.cache.loads ++ [s.known.elim .pending .loaded] := by
  rw [step_ask, loads_look]
  exact Cache.loads_start_of_none h s.known

/-- Whatever came before: one is told that there is no table exactly on seeing a load that has failed, and this empties
the memory of the cache exactly if it is the remembered load; a newer one that is remembered stays. No one who asks later
is bound to the load that was seen to fail, and while nothing is remembered whoever asks starts a new one. So what is
remembered stays until the cache is invalidated or this load is seen to have failed, and a load that has succeeded stays
exactly as long as the cache is not invalidated. -/
theorem eviction_exact (words : ε → String) (name : String) (known : Option τ) (steps : List (Step ε τ)) :
    let s : Sharing ε τ := run words { cache := { name }, known } steps
    (∀ step, (s.step words step).1 = .noTable ↔ ∃ load, s.SeesFailure step load) ∧
    (∀ step load, s.SeesFailure step load →
      let after := (s.step words step).2
      (s.cache.memo ≠ none ∧ after.cache.memo = none ↔ s.cache.memo = some load) ∧
      (∀ newer, s.cache.memo = some newer → newer ≠ load → load < newer ∧ after.cache.memo = some newer) ∧
      ∀ later who,
        let t := after.run words later
        t.binds ≠ load ∧
        (∀ before look, Looks words who t before look → before.looksAt? look = some t.binds) ∧
        (t.cache.memo = none → t.binds = t.cache.loads.length ∧
          (t.step words (.ask who)).2.cache.loads = t.cache.loads ++ [t.known.elim .pending .loaded])) ∧
    ∀ load, s.cache.memo = some load →
      (∀ step, (s.step words step).2.cache.memo = some load ↔ step.isInvalidate = false ∧ ¬ s.SeesFailure step load) ∧
      ∀ table, s.cache.loads[load]? = some (.loaded table) → ∀ later,
        (s.run words later).cache.memo = some load ↔ ∀ step ∈ later, step.isInvalidate = false := by
  intro s
  have horderly : s.Orderly := (orderly_start name known).run steps
  have hsound : s.cache.Sound := horderly.sound
  refine ⟨?shown, ?seen, ?kept⟩
  case shown => exact fun step => ⟨seesFailure_of_noTable, fun ⟨_, hsees⟩ => hsees.shown words⟩
  case seen =>
    intro step load hsees after
    have hmemo : after.cache.memo = if s.cache.memo = some load then none else s.cache.memo := hsees.memo words
    refine ⟨?_, ?_, ?_⟩
    · rw [hmemo]
      split <;> simp_all
    · intro newer hnewer hne
      obtain ⟨e, hfailed⟩ := hsees.failed
      have hlt := (List.getElem?_eq_some_iff.1 hfailed).1
      have hlatest := horderly.latest newer hnewer
      refine ⟨by omega, ?_⟩
      rw [hmemo, if_neg (by simpa [hnewer] using hne), hnewer]
    · intro later who t
      have ht : t.cache.Sound := ((horderly.next (s.does_step words step)).run later).sound
      refine ⟨Nat.ne_of_gt (hsees.lt_binds horderly later), fun before look h => h.looksAt ht, ?_⟩
      intro hnone
      exact ⟨by simp [binds, Cache.bind, hnone], loads_step_ask words who hnone⟩
  case kept =>
    intro load hmemo
    refine ⟨memo_step_iff words hmemo, ?_⟩
    intro table hload later
    refine ⟨?_, memo_run_of_loaded hmemo hload⟩
    intro hkept step hstep
    rw [← Bool.not_eq_true]
    exact fun hinvalid => memo_run_ne_of_invalidate hsound hmemo ⟨step, hstep, hinvalid⟩ hkept

/-- Load 0 has failed and `a` has seen it; `b`, who waited for it too, sees it only once load 1 is remembered. -/
example :
    let s : Sharing String Nat := run id { cache := { name := "workspace" } }
      [.ask "a", .ask "b", .settle 0 (.error "down"), .lookAgain "a", .ask "c"]
    s.looksAt? (.lookAgain "b") = some 0 ∧ (s.step id (.lookAgain "b")).2.cache.memo = some 1 := by decide

end Sharing
end RecordSource.Lookup
