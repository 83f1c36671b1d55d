import RecordSource.Lookup.Sharing

/-!
What one step does to a shared cache, and what a run of steps keeps: loads are only added, one that has ended stays as
it is, and whoever was served a table goes on holding it.
-/
namespace RecordSource.Lookup
variable {ε τ : Type}

namespace Load

def hasFailed : Load ε τ → Bool
  | failed _ => true
  | pending | loaded _ => false

@[simp] theorem hasFailed_pending : (pending : Load ε τ).hasFailed = false := rfl

@[simp] theorem hasFailed_loaded (t : τ) : (loaded t : Load ε τ).hasFailed = false := rfl

@[simp] theorem hasFailed_failed (e : ε) : (failed e : Load ε τ).hasFailed = true := rfl

/-- What is shown of a load to one who waits for it. -/
def shown (holders : List String) : Load ε τ → Shown τ
  | pending => .waiting
  | loaded t => .table t holders
  | failed _ => .noTable

end Load

namespace Step

def isAsk : Step ε τ → Bool
  | ask _ => true
  | _ => false

def isInvalidate : Step ε τ → Bool
  | invalidate => true
  | _ => false

/-- Whose step it is. -/
def who? : Step ε τ → Option String
  | ask who | lookAgain who | giveUp who => some who
  | settle _ _ | invalidate | rest => none

end Step

/-! The loads of a cache. -/

namespace Cache

/-- All the loads of `c` are still there, those that had ended as they were. -/
structure Continues (c c' : Cache ε τ) : Prop where
  length_le : c.loads.length ≤ c'.loads.length
  ended : ∀ (n : Nat) (l : Load ε τ), c.loads[n]? = some l → l ≠ .pending → c'.loads[n]? = some l

namespace Continues
variable {c c' c'' : Cache ε τ}

theorem of_loads_eq (h : c'.loads = c.loads) : c.Continues c' :=
  ⟨Nat.le_of_eq (congrArg List.length h.symm), fun n l hl _ => by rw [h, hl]⟩

theorem trans (h : c.Continues c') (h' : c'.Continues c'') : c.Continues c'' :=
  ⟨Nat.le_trans h.length_le h'.length_le, fun n l hl hne => h'.ended n l (h.ended n l hl hne) hne⟩

theorem bind (c : Cache ε τ) : c.Continues c.bind.2 := by
  unfold Cache.bind
  split
  · exact of_loads_eq rfl
  · refine ⟨by simp, ?_⟩
    intro n l hl _
    exact List.getElem?_append_left (List.getElem?_eq_some_iff.1 hl).1 ▸ hl

theorem settle (c : Cache ε τ) (load : Nat) (outcome : Except ε τ) : c.Continues (c.settle load outcome) := by
  unfold Cache.settle
  split
  · next hpending =>
    refine ⟨by simp, ?_⟩
    intro n l hl hne
    have hn : load ≠ n := by
      rintro rfl
      rw [hpending] at hl
      exact hne (Option.some.inj hl).symm
    rw [List.getElem?_set_ne hn, hl]
  · exact of_loads_eq rfl

end Continues

theorem loads_look (words : ε → String) (c : Cache ε τ) (load : Nat) : (c.look words load).2.loads = c.loads := by
  unfold look
  split <;> rfl

theorem memo_settle (c : Cache ε τ) (load : Nat) (outcome : Except ε τ) :
    (c.settle load outcome).memo = c.memo := by
  unfold settle
  split <;> rfl

theorem length_settle (c : Cache ε τ) (load : Nat) (outcome : Except ε τ) :
    (c.settle load outcome).loads.length = c.loads.length := by
  unfold settle
  split
  · exact List.length_set
  · rfl

/-- The cache once someone has asked: a load is remembered, and it has ended if its table is known. -/
def start (known : Option τ) (c : Cache ε τ) : Cache ε τ :=
  match known with
  | some t => c.bind.2.settle c.bind.1 (.ok t)
  | none => c.bind.2

theorem continues_start (known : Option τ) (c : Cache ε τ) : c.Continues (c.start known) := by
  cases known with
  | none => exact .bind c
  | some t => exact (Continues.bind c).trans (Continues.settle c.bind.2 c.bind.1 (.ok t))

theorem memo_start (known : Option τ) (c : Cache ε τ) : (c.start known).memo = some c.bind.1 := by
  cases known with
  | none => exact memo_bind c
  | some t => exact (memo_settle _ _ _).trans (memo_bind c)

/-- A load that one starts comes after all others; it is pending, or has ended with the known table. -/
theorem loads_start_of_none {c : Cache ε τ} (h : c.memo = none) (known : Option τ) :
    (c.start known).loads = c.loads ++ [known.elim .pending .loaded] := by
  have hbind : c.bind = (c.loads.length, { c with loads := c.loads ++ [.pending], memo := some c.loads.length }) := by
    simp [bind, h]
  cases known with
  | none => simp [start, hbind]
  | some t => simp [start, hbind, settle]

theorem loads_start {c : Cache ε τ} (h : c.memo = none) (known : Option τ) :
    (c.start known).loads[c.bind.1]? = some (known.elim .pending .loaded) := by
  simp [loads_start_of_none h, bind, h]

theorem length_start (known : Option τ) (c : Cache ε τ) :
    (c.start known).loads.length = c.loads.length + if c.memo = none then 1 else 0 := by
  have hbind : c.bind.2.loads.length = c.loads.length + if c.memo = none then 1 else 0 := by
    unfold bind
    split <;> simp [*]
  cases known with
  | none => exact hbind
  | some t => exact (length_settle _ _ _).trans hbind

end Cache

namespace Sharing

/-- Who holds the table of a load. -/
def holders (s : Sharing ε τ) (load : Nat) : List String := (s.served.filter fun w => w.2 == load).map Prod.fst

/-- The load that one who asks now is bound to. -/
def binds (s : Sharing ε τ) : Nat := s.cache.bind.1

/-- As one who asks finds it: with a load remembered. -/
def asked (s : Sharing ε τ) : Sharing ε τ := { s with cache := s.cache.start s.known }

variable {words : ε → String} {s : Sharing ε τ} {who : String} {load : Nat}

theorem step_ask : s.step words (.ask who) = look words s.asked who s.binds := rfl

theorem binds_of_memo (h : s.cache.memo = some load) : s.binds = load :=
  congrArg Prod.fst (Cache.bind_fst_of_memo h)

theorem step_lookAgain (h : s.waiting.lookup who = some load) :
    s.step words (.lookAgain who) = look words s who load := by
  rw [step, h]

/-- Looking, by what has become of the load. -/
theorem look_of_pending (h : s.cache.loads[load]? = some .pending) :
    look words s who load = (.waiting, { s with waiting := (who, load) :: leave who s.waiting }) := by
  simp [look, Cache.look, h]

theorem look_of_loaded {t : τ} (h : s.cache.loads[load]? = some (.loaded t)) :
    look words s who load = (.table t (s.holders load),
      { s with
        cache := { s.cache with warning := none }
        waiting := leave who s.waiting
        served := s.served ++ [(who, load)] }) := by
  simp [look, Cache.look, h, holders]

theorem look_of_failed {e : ε} (h : s.cache.loads[load]? = some (.failed e)) :
    look words s who load = (.noTable,
      { s with
        cache := { s.cache with
          memo := if s.cache.memo = some load then none else s.cache.memo
          warning := some ⟨"Warning during " ++ s.cache.name ++ " query", words e⟩ }
        waiting := leave who s.waiting }) := by
  simp [look, Cache.look, h]

theorem look_fst {l : Load ε τ} (h : s.cache.loads[load]? = some l) :
    (look words s who load).1 = l.shown (s.holders load) := by
  cases l with
  | pending => rw [look_of_pending h]; rfl
  | loaded t => rw [look_of_loaded h]; rfl
  | failed e => rw [look_of_failed h]; rfl

theorem cache_look : (look words s who load).2.cache = (s.cache.look words load).2 := by
  unfold look
  split <;> simp [*]

theorem loads_look : (look words s who load).2.cache.loads = s.cache.loads := by
  rw [cache_look, Cache.loads_look]

theorem failed_of_look (h : (look words s who load).1 = .noTable) : ∃ e, s.cache.loads[load]? = some (.failed e) := by
  cases hl : s.cache.loads[load]? with
  | none => simp [look, Cache.look, hl] at h
  | some l =>
    rw [look_fst hl] at h
    cases l with
    | failed e => exact ⟨e, rfl⟩
    | pending | loaded => cases h

/-- Only a failure that is seen is forgotten. -/
theorem memo_look (h : (look words s who load).1 ≠ .noTable) :
    (look words s who load).2.cache.memo = s.cache.memo := by
  cases hl : s.cache.loads[load]? with
  | none => simp [look, Cache.look, hl]
  | some l =>
    cases l with
    | pending => rw [look_of_pending hl]
    | loaded t => rw [look_of_loaded hl]
    | failed e =>
      rw [look_of_failed hl] at h
      exact absurd rfl h

theorem served_look : s.served <+: (look words s who load).2.served := by
  unfold look
  split
  · exact List.prefix_refl _
  · exact List.prefix_append _ _
  · exact List.prefix_refl _

/-! Those who wait. -/

theorem lookup_leave_of_ne {other : String} (h : other ≠ who) (waiting : List (String × Nat)) :
    (leave who waiting).lookup other = waiting.lookup other := by
  induction waiting with
  | nil => rfl
  | cons w waiting ih =>
    have hcons : leave who (w :: waiting) = if w.1 != who then w :: leave who waiting else leave who waiting :=
      List.filter_cons
    rw [hcons]
    split
    · rw [List.lookup_cons, List.lookup_cons, ih]
    · next hw =>
      have hother : (other == w.1) = false := by simp_all
      rw [List.lookup_cons, hother, ih]

theorem lookup_look_of_ne {other : String} (h : other ≠ who) :
    (look words s who load).2.waiting.lookup other = s.waiting.lookup other := by
  have hne : (other == who) = false := by simpa using h
  unfold look
  split
  · rw [List.lookup_cons, hne, lookup_leave_of_ne h]
  · exact lookup_leave_of_ne h _
  · exact lookup_leave_of_ne h _

theorem lookup_look_self (h : (look words s who load).1 = .waiting) :
    (look words s who load).2.waiting.lookup who = some load := by
  unfold look at h ⊢
  split <;> simp_all

/-! Steps. -/

/-- All that a step can do: it starts a load or not and looks at one, it ends a load, it makes the cache forget, or it
touches only those who wait. -/
inductive Does (words : ε → String) (s : Sharing ε τ) : Step ε τ → Shown τ × Sharing ε τ → Prop
  | ask (who : String) : Does words s (.ask who) (look words s.asked who s.binds)
  | lookAgain (who : String) (load : Nat) (h : s.waiting.lookup who = some load) :
      Does words s (.lookAgain who) (look words s who load)
  | settle (load : Nat) (outcome : Except ε τ) :
      Does words s (.settle load outcome) (.nothing, { s with cache := s.cache.settle load outcome })
  | invalidate : Does words s .invalidate (.nothing, { s with cache := s.cache.invalidate })
  | idle (step : Step ε τ) (hask : step.isAsk = false) (waiting : List (String × Nat))
      (hwaiting : ∀ who, step.who? ≠ some who → waiting.lookup who = s.waiting.lookup who) :
      Does words s step (.nothing, { s with waiting })

theorem does_step (words : ε → String) (s : Sharing ε τ) (step : Step ε τ) :
    s.Does words step (s.step words step) := by
  cases step with
  | ask who => exact .ask who
  | lookAgain who =>
    cases h : s.waiting.lookup who with
    | some load => exact step_lookAgain h ▸ .lookAgain who load h
    | none =>
      have hstep : s.step words (.lookAgain who) = (.nothing, s) := by rw [step, h]
      exact hstep ▸ .idle _ rfl s.waiting fun _ _ => rfl
  | giveUp who =>
    refine .idle _ rfl (leave who s.waiting) ?_
    intro other hother
    refine lookup_leave_of_ne ?_ _
    rintro rfl
    exact hother rfl
  | settle load outcome => exact .settle load outcome
  | invalidate => exact .invalidate
  | rest => exact .idle _ rfl s.waiting fun _ _ => rfl

namespace Does
variable {step : Step ε τ} {p : Shown τ × Sharing ε τ}

theorem continues (h : s.Does words step p) : s.cache.Continues p.2.cache := by
  cases h with
  | ask who => exact (s.cache.continues_start s.known).trans (.of_loads_eq loads_look)
  | lookAgain who load _ => exact .of_loads_eq loads_look
  | settle load outcome => exact .settle _ _ _
  | invalidate => exact .of_loads_eq rfl
  | idle => exact .of_loads_eq rfl

theorem served (h : s.Does words step p) : s.served <+: p.2.served := by
  cases h with
  | ask who => exact served_look (s := s.asked)
  | lookAgain who load _ => exact served_look
  | settle => exact List.prefix_refl _
  | invalidate => exact List.prefix_refl _
  | idle => exact List.prefix_refl _

/-- A load is started by one who asks while none is remembered, and by nothing else. -/
theorem length_loads (h : s.Does words step p) :
    p.2.cache.loads.length = s.cache.loads.length + if step.isAsk ∧ s.cache.memo = none then 1 else 0 := by
  cases h with
  | ask who =>
    rw [loads_look]
    exact (s.cache.length_start s.known).trans (by simp [Step.isAsk])
  | lookAgain who load _ => simp [loads_look, Step.isAsk]
  | settle load outcome => exact (s.cache.length_settle load outcome).trans (by simp [Step.isAsk])
  | invalidate => simp [Cache.invalidate, Step.isAsk]
  | idle _ hask => simp [hask]

/-- What others do leaves one waiting for the same load. -/
theorem lookup_waiting (h : s.Does words step p) (hwho : step.who? ≠ some who) :
    p.2.waiting.lookup who = s.waiting.lookup who := by
  cases h with
  | ask other => exact lookup_look_of_ne (s := s.asked) fun heq => hwho (congrArg some heq.symm)
  | lookAgain other load _ => exact lookup_look_of_ne fun heq => hwho (congrArg some heq.symm)
  | settle | invalidate => rfl
  | idle _ _ waiting hwaiting => exact hwaiting who hwho

/-- What is remembered stays so until it is invalidated, or one who looks finds that it failed. -/
theorem memo (h : s.Does words step p) (hvalid : step.isInvalidate = false) (hshown : p.1 ≠ .noTable)
    (hload : s.cache.memo = some load) : p.2.cache.memo = some load := by
  cases h with
  | ask who =>
    exact (memo_look hshown).trans ((s.cache.memo_start s.known).trans (congrArg some (binds_of_memo hload)))
  | lookAgain who other _ => exact (memo_look hshown).trans hload
  | settle other outcome => exact (s.cache.memo_settle other outcome).trans hload
  | invalidate => cases hvalid
  | idle => exact hload

end Does

/-! Runs. -/

/-- The state after some steps. -/
def run (words : ε → String) (s : Sharing ε τ) (steps : List (Step ε τ)) : Sharing ε τ :=
  steps.foldl (fun s step => (s.step words step).2) s

theorem run_cons (words : ε → String) (s : Sharing ε τ) (step : Step ε τ) (steps : List (Step ε τ)) :
    s.run words (step :: steps) = (s.step words step).2.run words steps := rfl

theorem continues_run (words : ε → String) (s : Sharing ε τ) (steps : List (Step ε τ)) :
    s.cache.Continues (s.run words steps).cache := by
  induction steps generalizing s with
  | nil => exact .of_loads_eq rfl
  | cons step steps ih => exact (s.does_step words step).continues.trans (ih _)

theorem served_run (words : ε → String) (s : Sharing ε τ) (steps : List (Step ε τ)) :
    s.served <+: (s.run words steps).served := by
  induction steps generalizing s with
  | nil => exact List.prefix_refl _
  | cons step steps ih => exact (s.does_step words step).served.trans (ih _)

theorem lookup_waiting_run {steps : List (Step ε τ)} (h : ∀ step ∈ steps, step.who? ≠ some who)
    (s : Sharing ε τ) : (s.run words steps).waiting.lookup who = s.waiting.lookup who := by
  induction steps generalizing s with
  | nil => rfl
  | cons step steps ih =>
    rw [List.forall_mem_cons] at h
    rw [run_cons, ih h.2, (s.does_step words step).lookup_waiting h.1]

end Sharing
end RecordSource.Lookup
