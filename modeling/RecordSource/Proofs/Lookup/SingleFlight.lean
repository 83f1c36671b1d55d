import RecordSource.Proofs.Lookup.Steps

/-!
One load for many. Whoever asks is bound to the load that is remembered, is shown what becomes of that load and of no
other, and shares its table with all who were bound to it; and no load is started but for want of one.
-/
namespace RecordSource.Lookup
variable {ε τ : Type}

namespace Cache

/-- The remembered load is one of the loads. -/
def Sound (c : Cache ε τ) : Prop := ∀ n, c.memo = some n → n < c.loads.length

theorem Sound.bind_lt {c : Cache ε τ} (h : c.Sound) (known : Option τ) :
    c.bind.1 < (c.start known).loads.length := by
  rw [length_start]
  unfold bind
  split
  · next n hn => exact Nat.lt_add_right _ (h n hn)
  · next hn => simp [hn]

theorem Sound.start {c : Cache ε τ} (h : c.Sound) (known : Option τ) : (c.start known).Sound := by
  intro n hn
  rw [memo_start, Option.some.injEq] at hn
  rw [← hn]
  exact h.bind_lt known

theorem Sound.settle {c : Cache ε τ} (h : c.Sound) (load : Nat) (outcome : Except ε τ) :
    (c.settle load outcome).Sound := by
  intro n hn
  rw [memo_settle] at hn
  rw [length_settle]
  exact h n hn

theorem Sound.look {c : Cache ε τ} (h : c.Sound) (words : ε → String) (load : Nat) :
    (c.look words load).2.Sound := by
  intro n hn
  rw [loads_look]
  unfold Cache.look at hn
  split at hn
  · exact h n hn
  · simp only at hn
    split at hn
    · cases hn
    · exact h n hn
  · exact h n hn

/-- One for a remembered load that has not failed. -/
def live (c : Cache ε τ) : Nat :=
  if c.memo.any fun n => c.loads[n]?.any fun l => !l.hasFailed then 1 else 0

/-- How many loads there may be: one for each that failed, and the live one. -/
def spare (c : Cache ε τ) : Nat := c.loads.countP Load.hasFailed + c.live

theorem live_le_one (c : Cache ε τ) : c.live ≤ 1 := by
  unfold live
  split <;> omega

theorem spare_bind (c : Cache ε τ) : c.bind.2.loads.length + c.spare = c.loads.length + c.bind.2.spare := by
  unfold bind
  split
  · rfl
  · next hmemo =>
    have hnone : c.live = 0 := by simp [live, hmemo]
    have hone : live { c with loads := c.loads ++ [.pending], memo := some c.loads.length } = 1 := by simp [live]
    simp only [spare, hnone, hone, List.length_append, List.countP_append]
    simp
    omega

theorem spare_settle (c : Cache ε τ) (load : Nat) (outcome : Except ε τ) :
    c.spare ≤ (c.settle load outcome).spare := by
  unfold settle
  split
  · next hpending =>
    obtain ⟨hlt, hget⟩ := List.getElem?_eq_some_iff.1 hpending
    have hcount : ∀ l : Load ε τ, (c.loads.set load l).countP Load.hasFailed =
        c.loads.countP Load.hasFailed + if l.hasFailed then 1 else 0 := by
      intro l
      rw [List.countP_set hlt, hget]
      simp
    cases outcome with
    | error e =>
      have hlive := c.live_le_one
      simp only [spare, hcount, Load.hasFailed_failed, if_true]
      omega
    | ok t =>
      have hlive : c.live = live { c with loads := c.loads.set load (.loaded t) } := by
        unfold live
        congr 2
        cases hmemo : c.memo with
        | none => rfl
        | some n =>
          by_cases hn : load = n
          · subst hn
            simp [hlt, hget]
          · simp [List.getElem?_set_ne hn]
      simp [spare, hcount, ← hlive]
  · exact Nat.le_refl _

theorem spare_look (words : ε → String) (c : Cache ε τ) (load : Nat) : c.spare ≤ (c.look words load).2.spare := by
  unfold look
  split
  · exact Nat.le_refl _
  · next e hfailed =>
    by_cases hmemo : c.memo = some load
    · have hlive : c.live = 0 := by simp [live, hmemo, hfailed]
      simp [spare, hlive]
    · simp [spare, live, hmemo]
  · exact Nat.le_refl _

theorem spare_invalidate (c : Cache ε τ) : c.spare ≤ c.invalidate.spare + 1 := by
  have hlive := c.live_le_one
  simp only [spare, invalidate]
  omega

theorem spare_start (known : Option τ) (c : Cache ε τ) :
    (c.start known).loads.length + c.spare ≤ c.loads.length + (c.start known).spare := by
  have hbind := c.spare_bind
  cases known with
  | none => exact Nat.le_of_eq hbind
  | some t =>
    have hsettle := spare_settle c.bind.2 c.bind.1 (.ok t)
    have hlength := length_settle c.bind.2 c.bind.1 (.ok t)
    simp only [start]
    omega

end Cache

namespace Sharing
variable {words : ε → String} {s : Sharing ε τ} {who : String} {load : Nat} {step : Step ε τ}

/-! Every load had its reason. -/

theorem Does.sound {p : Shown τ × Sharing ε τ} (h : s.Does words step p) (hs : s.cache.Sound) : p.2.cache.Sound := by
  cases h with
  | ask who =>
    rw [cache_look]
    exact (hs.start s.known).look words s.binds
  | lookAgain who load _ =>
    rw [cache_look]
    exact hs.look words load
  | settle load outcome => exact hs.settle load outcome
  | invalidate => exact fun n hn => by cases hn
  | idle => exact hs

/-- A step that starts a load had none left to spare, unless the cache was invalidated. -/
theorem Does.spare {p : Shown τ × Sharing ε τ} (h : s.Does words step p) :
    p.2.cache.loads.length + s.cache.spare ≤
      s.cache.loads.length + p.2.cache.spare + if step.isInvalidate then 1 else 0 := by
  cases h with
  | ask who =>
    have hstart := s.cache.spare_start s.known
    have hlook := Cache.spare_look words (s.cache.start s.known) s.binds
    rw [loads_look, cache_look]
    exact Nat.le_trans hstart (Nat.add_le_add_left hlook _)
  | lookAgain who load _ =>
    rw [loads_look, cache_look]
    exact Nat.add_le_add_left (Cache.spare_look words s.cache load) _
  | settle load outcome =>
    have hlength := s.cache.length_settle load outcome
    have hspare := s.cache.spare_settle load outcome
    simp only [hlength]
    omega
  | invalidate =>
    have hspare := s.cache.spare_invalidate
    exact Nat.add_le_add_left hspare _
  | idle => exact Nat.le_add_right _ _

theorem sound_run (hs : s.cache.Sound) (steps : List (Step ε τ)) : (s.run words steps).cache.Sound := by
  induction steps generalizing s with
  | nil => exact hs
  | cons step steps ih => exact ih ((s.does_step words step).sound hs)

theorem length_run_le (words : ε → String) (s : Sharing ε τ) (steps : List (Step ε τ)) :
    (s.run words steps).cache.loads.length + s.cache.spare ≤
      s.cache.loads.length + (s.run words steps).cache.spare + steps.countP Step.isInvalidate := by
  induction steps generalizing s with
  | nil => simp [run]
  | cons step steps ih =>
    have hstep := (s.does_step words step).spare
    have hrest := ih (s.step words step).2
    rw [run_cons, List.countP_cons]
    omega

/-! Those who ask. -/

/-- Looking at a load shows what has become of it. One who sees nothing yet waits for this load, one who sees a table
holds it. -/
structure Looked (who : String) (load : Nat) (holders : List String) (p : Shown τ × Sharing ε τ) : Prop where
  shown : ∃ l, p.2.cache.loads[load]? = some l ∧ p.1 = l.shown holders
  waits : p.1 = .waiting → p.2.waiting.lookup who = some load
  holds : ∀ t names, p.1 = .table t names → (who, load) ∈ p.2.served

theorem looked_look (h : load < s.cache.loads.length) (words : ε → String) (who : String) :
    Looked who load (s.holders load) (look words s who load) := by
  have hload : s.cache.loads[load]? = some s.cache.loads[load] := List.getElem?_eq_getElem h
  refine ⟨⟨_, by rw [loads_look, hload], look_fst hload⟩, lookup_look_self, ?_⟩
  intro t names ht
  rw [look_fst hload] at ht
  cases hl : s.cache.loads[load] with
  | loaded t' =>
    rw [hl] at hload
    rw [look_of_loaded hload]
    simp
  | pending | failed =>
    rw [hl] at ht
    cases ht

/-- The looks of one who asks in the state `s`, each with the state it is made in: the first, and more as long as
there is nothing to see, whatever the others do meanwhile. -/
inductive Looks (words : ε → String) (who : String) (s : Sharing ε τ) : Sharing ε τ → Step ε τ → Prop
  | first : Looks words who s s (.ask who)
  | again {before : Sharing ε τ} {step : Step ε τ} (h : Looks words who s before step)
      (hwaiting : (before.step words step).1 = .waiting) {others : List (Step ε τ)}
      (hothers : ∀ step ∈ others, step.who? ≠ some who) :
      Looks words who s ((before.step words step).2.run words others) (.lookAgain who)

/-- Every look of one who asks is at the load that was remembered or started at the first. -/
theorem Looks.looked {before : Sharing ε τ} (h : Looks words who s before step) (hs : s.cache.Sound) :
    Looked who s.binds (before.holders s.binds) (before.step words step) := by
  induction h with
  | first => exact looked_look (s := s.asked) (hs.bind_lt s.known) words who
  | @again before step _ hwaiting others hothers ih =>
    have hlookup : ((before.step words step).2.run words others).waiting.lookup who = some s.binds := by
      rw [lookup_waiting_run hothers, ih.waits hwaiting]
    obtain ⟨l, hl, _⟩ := ih.shown
    have hlt := (List.getElem?_eq_some_iff.1 hl).1
    have hlater := continues_run words (before.step words step).2 others
    rw [step_lookAgain hlookup]
    exact looked_look (Nat.lt_of_lt_of_le hlt hlater.length_le) words who

/-- The load that one who asks is bound to is the one remembered thereafter, unless its failure has been seen at
once. -/
theorem memo_step_ask (words : ε → String) (s : Sharing ε τ) (who : String) :
    (s.step words (.ask who)).2.cache.memo = some s.binds ∨
    (s.step words (.ask who)).1 = .noTable ∧ (s.step words (.ask who)).2.cache.memo = none ∧
      s.cache.memo = some s.binds := by
  have hasked : s.asked.cache.memo = some s.binds := s.cache.memo_start s.known
  rw [step_ask]
  by_cases hshown : (look words s.asked who s.binds).1 = .noTable
  · obtain ⟨e, hfailed⟩ := failed_of_look hshown
    refine .inr ⟨hshown, ?_, ?_⟩
    · rw [look_of_failed hfailed]
      exact if_pos hasked
    · cases hmemo : s.cache.memo with
      | some n => rw [binds_of_memo hmemo]
      | none =>
        have hnew := hfailed.symm.trans (Cache.loads_start hmemo s.known)
        cases hknown : s.known <;> simp [hknown] at hnew
  · exact .inl ((memo_look hshown).trans hasked)

/-- Steps in which the cache is not invalidated and no one sees a failure. -/
def Quiet (words : ε → String) : Sharing ε τ → List (Step ε τ) → Prop
  | _, [] => True
  | s, step :: steps =>
    step.isInvalidate = false ∧ (s.step words step).1 ≠ .noTable ∧ Quiet words (s.step words step).2 steps

theorem Quiet.memo_run {steps : List (Step ε τ)} (h : Quiet words s steps) (hload : s.cache.memo = some load) :
    (s.run words steps).cache.memo = some load := by
  induction steps generalizing s with
  | nil => exact hload
  | cons step steps ih => exact ih h.2.2 ((s.does_step words step).memo h.1 h.2.1 hload)

/-- All who ask in a quiet time are bound to one load. -/
theorem Quiet.binds_run {between : List (Step ε τ)} (h : Quiet words s (.ask who :: between)) :
    ((s.step words (.ask who)).2.run words between).binds = s.binds := by
  have hfirst : (s.step words (.ask who)).2.cache.memo = some s.binds :=
    (memo_look h.2.1).trans (s.cache.memo_start s.known)
  exact binds_of_memo (h.2.2.memo_run hfirst)

/-- A table that was shown stays, and so does its holder. -/
theorem Looked.kept {holders : List String} {p : Shown τ × Sharing ε τ} (h : Looked who load holders p) {t : τ}
    {names : List String} (ht : p.1 = .table t names) (words : ε → String) (later : List (Step ε τ)) :
    (p.2.run words later).cache.loads[load]? = some (.loaded t) ∧ who ∈ (p.2.run words later).holders load := by
  obtain ⟨l, hl, hshown⟩ := h.shown
  obtain rfl : l = .loaded t := by
    rw [ht] at hshown
    cases l with
    | loaded t' =>
      cases hshown
      rfl
    | pending | failed => cases hshown
  refine ⟨(continues_run words p.2 later).ended load _ hl (by simp), ?_⟩
  have hserved := (served_run words p.2 later).subset (h.holds t names ht)
  exact List.mem_map.2 ⟨(who, load), by simp [hserved], rfl⟩

/-- Whatever came before, a load is started exactly by one who asks while none is remembered, and at most one is
started for each that failed, for each time the cache was invalidated, and once more. One who asks is bound to the load
remembered thereafter, or to the one remembered until then if it is seen to have failed; each look shows what has become
of this load, the table stays with all who were shown it, and all who ask in a quiet time are bound alike. -/
theorem single_flight (words : ε → String) (name : String) (known : Option τ) (steps : List (Step ε τ)) :
    let s : Sharing ε τ := run words { cache := { name }, known } steps
    (∀ step, (s.step words step).2.cache.loads.length =
      s.cache.loads.length + if step.isAsk ∧ s.cache.memo = none then 1 else 0) ∧
    s.cache.loads.length ≤ 1 + steps.countP Step.isInvalidate + s.cache.loads.countP Load.hasFailed ∧
    ∀ who,
      let first := s.step words (.ask who)
      (first.2.cache.memo = some s.binds ∨
        first.1 = .noTable ∧ first.2.cache.memo = none ∧ s.cache.memo = some s.binds) ∧
      (∀ before step, Looks words who s before step →
        let look := before.step words step
        (∃ l, look.2.cache.loads[s.binds]? = some l ∧ look.1 = l.shown (before.holders s.binds)) ∧
        ∀ t names, look.1 = .table t names → ∀ later,
          (look.2.run words later).cache.loads[s.binds]? = some (.loaded t) ∧
          who ∈ (look.2.run words later).holders s.binds) ∧
      ∀ between, Quiet words s (.ask who :: between) → (first.2.run words between).binds = s.binds := by
  intro s
  have hsound : s.cache.Sound := sound_run (fun n hn => by cases hn) steps
  refine ⟨fun step => (s.does_step words step).length_loads, ?_, ?_⟩
  · have hrun : s.cache.loads.length + 0 ≤ 0 + s.cache.spare + steps.countP Step.isInvalidate :=
      length_run_le words { cache := { name }, known } steps
    have hlive := s.cache.live_le_one
    have hspare : s.cache.spare = s.cache.loads.countP Load.hasFailed + s.cache.live := rfl
    omega
  · intro who
    refine ⟨memo_step_ask words s who, ?_, fun between h => h.binds_run⟩
    intro before step h
    have hlooked := h.looked hsound
    exact ⟨hlooked.shown, fun t names ht => hlooked.kept ht words⟩

example :
    let s : Sharing String Nat := run id { cache := { name := "workspace" } }
      [.ask "a", .ask "b", .settle 0 (.ok 7), .lookAgain "a", .invalidate, .ask "c"]
    (s.step id (.lookAgain "b")).1 = .table 7 ["a"] ∧ (s.step id (.lookAgain "c")).1 = .waiting := by decide

/-- Who finds a load remembered that has failed, unseen so far, sees the failure at the first look, and nothing is
remembered any more; the next to ask starts another load. -/
theorem single_flight_ends_at_first_look :
    let s : Sharing String Unit := run id { cache := { name := "workspace" } } [.ask "a", .settle 0 (.error "down")]
    let b := s.step id (.ask "b")
    b.2.cache.memo ≠ some s.binds ∧ b.1 = .noTable ∧ b.2.binds ≠ s.binds := by
  decide

end Sharing
end RecordSource.Lookup
