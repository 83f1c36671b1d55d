import RecordSource.Proofs.Paging.Replies

/-!
How often calls start. A call starts as soon as it is ready and the interval after the start before it is over; so in no
second more calls start than the rate allows, however the calls become ready, in runs of any style of paging too.
-/
namespace RecordSource.Paging
variable {σ κ ε π ρ : Type}

/-! Starts that keep a distance. -/

/-- Numbers below a bound that lie apart reach up to it from the first one on. -/
theorem add_length_mul_lt {gap bound x : Nat} {xs : List Nat} (hapart : (x :: xs).Pairwise fun a b => a + gap ≤ b)
    (hbound : ∀ y ∈ x :: xs, y < bound) : x + xs.length * gap < bound := by
  induction xs generalizing x with
  | nil => simpa using hbound
  | cons y ys ih =>
    rw [List.pairwise_cons] at hapart
    rw [List.forall_mem_cons] at hbound
    have hstep : x + gap ≤ y := hapart.1 y List.mem_cons_self
    have hrest : y + ys.length * gap < bound := ih hapart.2 hbound.2
    rw [List.length_cons, Nat.add_mul]
    omega

/-- The numbers in a window of the given width that begins at `t`. -/
def window (width t : Nat) (xs : List Nat) : List Nat := xs.filter fun x => t ≤ x && x < t + width

theorem length_window_le {gap width most : Nat} (hmost : width ≤ most * gap) {xs : List Nat}
    (hapart : xs.Pairwise fun a b => a + gap ≤ b) (t : Nat) : (window width t xs).length ≤ most := by
  have hinside : ∀ x ∈ window width t xs, t ≤ x ∧ x < t + width := by
    intro x hx
    simpa [window] using (List.mem_filter.1 hx).2
  have hapart' : (window width t xs).Pairwise fun a b => a + gap ≤ b := hapart.filter _
  cases hxs : window width t xs with
  | nil => exact Nat.zero_le _
  | cons x ys =>
    rw [hxs] at hinside hapart'
    have hspan := add_length_mul_lt hapart' fun y hy => (hinside y hy).2
    have hfirst := (hinside x List.mem_cons_self).1
    refine Nat.lt_of_not_le ?_
    intro hmany
    have := Nat.mul_le_mul_right gap hmany
    omega

namespace Pacer

/-! The first millisecond not before an instant. -/

theorem ceilMillis_le_iff {nanos millis : Nat} : ceilMillis nanos ≤ millis ↔ nanos ≤ millis * 1000000 := by
  unfold ceilMillis
  omega

theorem ceilMillis_millis_add (millis nanos : Nat) :
    ceilMillis (millis * 1000000 + nanos) = millis + ceilMillis nanos := by
  unfold ceilMillis
  omega

/-- The intervals of as many calls as a second allows make up a second, though each is cut to whole nanoseconds:
waiting for whole milliseconds makes up for it. -/
theorem second_le_mul_ceilMillis {rate : Nat} (hpos : 0 < rate) (hrate : rate ≤ 1000000000) :
    1000 ≤ rate * ceilMillis (1000000000 / rate) := by
  have hone : 1 ≤ ceilMillis (1000000000 / rate) := by
    have hinterval : 0 < 1000000000 / rate := Nat.div_pos hrate hpos
    unfold ceilMillis
    omega
  rcases Nat.lt_or_ge rate 1000 with hslow | hfast
  · have hinterval := ceilMillis_le_iff.1 (Nat.le_refl (ceilMillis (1000000000 / rate)))
    have hsecond : 1000000000 < (ceilMillis (1000000000 / rate) * 1000000 + 1) * rate :=
      (Nat.div_lt_iff_lt_mul hpos).1 (Nat.lt_succ_of_le hinterval)
    rw [Nat.add_mul, Nat.mul_right_comm, Nat.mul_comm (ceilMillis _) rate] at hsecond
    omega
  · exact Nat.le_trans hfast (Nat.le_mul_of_pos_right rate hone)

/-! What a pacer makes of moments. -/

/-- The starts of calls that become ready at the given moments. -/
def startsAt (p : Pacer) : List Nat → List Nat
  | [] => []
  | ready :: moments => p.start ready :: startsAt (p.started (p.start ready)) moments

/-- The calls that become ready after gaps do so at moments. -/
theorem starts_eq_startsAt (p : Pacer) (now : Nat) (gaps : List Nat) :
    p.starts now gaps = p.startsAt (List.zipWith (· + ·) (now :: p.starts now gaps) gaps) := by
  induction gaps generalizing p now with
  | nil => rfl
  | cons gap gaps ih =>
    simp only [starts, List.zipWith_cons_cons, startsAt]
    rw [← ih]

theorem length_startsAt (p : Pacer) (moments : List Nat) : (p.startsAt moments).length = moments.length := by
  induction moments generalizing p with
  | nil => rfl
  | cons ready moments ih => rw [startsAt, List.length_cons, ih, List.length_cons]

theorem getElem?_succ_startsAt {p : Pacer} {moments : List Nat} {i s ready : Nat}
    (hs : (p.startsAt moments)[i]? = some s) (hready : moments[i + 1]? = some ready) :
    (p.startsAt moments)[i + 1]? = some (max ready (ceilMillis (s * 1000000 + p.interval))) := by
  induction moments generalizing p i with
  | nil => cases hready
  | cons first moments ih =>
    cases i with
    | succ i => exact ih hs hready
    | zero =>
      cases moments with
      | nil => cases hready
      | cons second moments =>
        cases hs
        cases hready
        rfl

/-- All starts after a call keep the interval to it, and to each other. -/
theorem startsAt_apart (p : Pacer) (moments : List Nat) :
    (∀ t ∈ p.earliest, ∀ s ∈ p.startsAt moments, ceilMillis t ≤ s) ∧
    (p.startsAt moments).Pairwise fun a b => a + ceilMillis p.interval ≤ b := by
  induction moments generalizing p with
  | nil => simp [startsAt]
  | cons ready moments ih =>
    obtain ⟨hafter, hapart⟩ := ih (p.started (p.start ready))
    have hgap : ∀ s ∈ (p.started (p.start ready)).startsAt moments,
        p.start ready + ceilMillis p.interval ≤ s := by
      intro s hs
      rw [← ceilMillis_millis_add]
      exact hafter _ rfl s hs
    refine ⟨?_, List.pairwise_cons.2 ⟨hgap, hapart⟩⟩
    intro t ht
    have hfirst : ceilMillis t ≤ p.start ready := by
      obtain ⟨interval, earliest⟩ := p
      obtain rfl : earliest = some t := ht
      exact Nat.le_max_right _ _
    exact List.forall_mem_cons.2 ⟨hfirst, fun s hs => Nat.le_trans hfirst (Nat.le_of_add_right_le (hgap s hs))⟩

end Pacer

/-- Starts of calls that become ready at the given moments and keep to a rate: the first is not delayed, each later one
only until the interval after the one before is over, and no second has more of them than the rate allows. -/
structure Paced (perSecond : Nat) (ready starts : List Nat) : Prop where
  length : starts.length = ready.length
  first : starts.head? = ready.head?
  later : ∀ i s r, starts[i]? = some s → ready[i + 1]? = some r →
    starts[i + 1]? = some (max r (Pacer.ceilMillis (s * 1000000 + 1000000000 / max perSecond 1)))
  ceiling : ∀ t, (window 1000 t starts).length ≤ max perSecond 1

theorem paced_startsAt {perSecond : Nat} (hrate : perSecond ≤ 1000000000) (moments : List Nat) :
    Paced perSecond moments ((Pacer.ofRate perSecond).startsAt moments) where
  length := Pacer.length_startsAt _ _
  first := by cases moments <;> rfl
  later := fun _ _ _ hs hready => Pacer.getElem?_succ_startsAt hs hready
  ceiling := by
    have hsecond := Pacer.second_le_mul_ceilMillis (Nat.le_max_right perSecond 1) (Nat.max_le.2 ⟨hrate, by decide⟩)
    exact length_window_le hsecond (Pacer.startsAt_apart (Pacer.ofRate perSecond) moments).2

/-! Runs. -/

/-- The moments at which the calls of a run are ready: at the start of the run, and as soon as the call before is
answered. -/
def readyMoments (server : Server σ κ ε π) : Nat → σ → List (Call κ) → List Nat
  | _, _, [] => []
  | now, state, call :: calls =>
    now :: readyMoments server (call.start + (server state call).1.delay) (server state call).2 calls

theorem starts_runFrom (limits : Limits) (target : Option Nat) (style : Style κ π ρ) (server : Server σ κ ε π)
    (pages : Nat) (p : Progress σ κ) :
    let calls := (runFrom limits target style server pages p).calls
    calls.map Call.start = p.pacer.startsAt (readyMoments server p.now p.server calls) := by
  induction pages generalizing p with
  | zero => rfl
  | succ pages ih =>
    intro calls
    cases houtcome : (server p.server (p.call limits target)).1.outcome with
    | error e =>
      obtain ⟨hcalls, _⟩ := runFrom_of_error style houtcome pages
      simp only [calls, hcalls]
      rfl
    | ok page =>
      rcases runFrom_of_page style houtcome pages with ⟨hcalls, _⟩ | ⟨p', f, hpacer, hnow, hserver, hcalls, _⟩
      · simp only [calls, hcalls]
        rfl
      · have hrest := ih p'
        simp only [calls, hcalls, List.map_cons, readyMoments, Pacer.startsAt]
        rw [hpacer, hnow, hserver] at hrest
        exact congrArg _ hrest

theorem starts_run (limits : Limits) (target : Option Nat) (style : Style κ π ρ) (first : κ)
    (server : Server σ κ ε π) (now : Nat) (state : σ) :
    let calls := (run limits target style first server now state).calls
    calls.map Call.start = (Pacer.ofRate limits.perSecond).startsAt (readyMoments server now state calls) := by
  unfold run
  split
  · rfl
  · exact starts_runFrom limits target style server limits.maxPages _

/-- Up to a rate of one call a nanosecond, calls keep to their rate, at whatever moments they become ready, be it the
next ones after any gaps or those of a run of any style against any server. -/
theorem starts_paced {perSecond : Nat} (hrate : perSecond ≤ 1000000000) :
    (∀ moments, Paced perSecond moments ((Pacer.ofRate perSecond).startsAt moments)) ∧
    (∀ now gaps, let starts := (Pacer.ofRate perSecond).starts now gaps
      Paced perSecond (List.zipWith (· + ·) (now :: starts) gaps) starts) ∧
    ∀ {σ κ ε π ρ : Type} (limits : Limits) (target : Option Nat) (style : Style κ π ρ) (first : κ)
      (server : Server σ κ ε π) (now : Nat) (state : σ), limits.perSecond = perSecond →
      let calls := (run limits target style first server now state).calls
      Paced perSecond (readyMoments server now state calls) (calls.map Call.start) := by
  refine ⟨paced_startsAt hrate, ?_, ?_⟩
  · intro now gaps starts
    have hpaced := paced_startsAt hrate (List.zipWith (· + ·) (now :: starts) gaps)
    rwa [← Pacer.starts_eq_startsAt] at hpaced
  · intro σ κ ε π ρ limits target style first server now state hlimits calls
    have hstarts := starts_run limits target style first server now state
    rw [hlimits] at hstarts
    simp only [calls, hstarts]
    exact paced_startsAt hrate _

/-- Three calls a second, a slow answer before the last: no call makes up for the idle second. -/
theorem starts_paced_slow_answer :
    let server : Server Unit (Option String) String (Page Nat) := fun _ call =>
      (match call.position with
        | none => ⟨0, .ok { records := [1], cursor := some "a" }⟩
        | some "a" => ⟨1700, .ok { records := [2], cursor := some "b" }⟩
        | some "b" => ⟨0, .ok { records := [3], cursor := some "c" }⟩
        | _ => ⟨0, .ok { records := [4] }⟩, ())
    let calls := (run { perSecond := 3 } none byCursor none server 0 ()).calls
    3 ≤ 1000000000 ∧ readyMoments server 0 () calls = [0, 0, 2034, 2034] ∧ calls.map Call.start = [0, 334, 2034, 2368] ∧
    (window 1000 1400 [0, 334, 2034, 2368]).length = 2 ∧ Paced 3 [0, 0, 2034, 2034] [0, 334, 2034, 2368] := by
  intro server calls
  have hready : readyMoments server 0 () calls = [0, 0, 2034, 2034] := by decide
  have hstarts : calls.map Call.start = [0, 334, 2034, 2368] := by decide
  have hpaced := (starts_paced (by decide : 3 ≤ 1000000000)).2.2 { perSecond := 3 } none byCursor none server 0 () rfl
  refine ⟨by decide, hready, hstarts, by decide, ?_⟩
  rw [← hready, ← hstarts]
  exact hpaced

end RecordSource.Paging
