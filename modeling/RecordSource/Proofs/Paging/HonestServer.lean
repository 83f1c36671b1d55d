import RecordSource.Proofs.Paging.Serving

/-!
Runs by cursors against a server that hands a list out in slices of its own choice. However it slices, a run that comes
to a result has the records of the list in order, each once, and asks for none beyond its target.
-/
namespace RecordSource.Paging
variable {σ ε ρ : Type}

/-- A cursor stands for a position in a list of the given length: none for its start, a name for any other. -/
def PointsTo (name : Nat → String) (length : Nat) (cursor : Option String) (i : Nat) : Prop :=
  match cursor with
  | none => i = 0
  | some c => 0 < i ∧ i < length ∧ c = name i

/-- A server that hands out a list. Positions have names of their own; asked from a position it answers with the records
up to a later one, as long as there are any, and names that one if the list goes on there. -/
structure Honest (L : List ρ) (name : Nat → String) (server : Server σ (Option String) ε (Page ρ)) : Prop where
  named : ∀ i < L.length, name i ≠ ""
  distinct : ∀ i < L.length, ∀ j < L.length, name i = name j → i = j
  answers : ∀ state call i, PointsTo name L.length call.position i → ∃ page j,
    (server state call).1.outcome = .ok page ∧ page.records = (L.drop i).take (j - i) ∧ i ≤ j ∧ j ≤ L.length ∧
    (i < L.length → i < j) ∧ if j < L.length then page.cursor = some (name j) else page.isLast = true

/-- The cursor that the server names is another one than it was asked with. -/
theorem Honest.serves {L : List ρ} {name : Nat → String} {server : Server σ (Option String) ε (Page ρ)}
    (h : Honest L name server) : Serves L (fun _ => PointsTo name L.length) server where
  start _ := rfl
  answers := by
    intro state call i hi
    obtain ⟨page, j, hok, hrecords, hij, hj, hgoes, hcursor⟩ := h.answers state call i hi
    refine ⟨page, j, hok, hrecords, hij, hj, hgoes, ?_⟩
    by_cases hlast : j < L.length
    · have hnext : page.cursor = some (name j) := by simpa [hlast] using hcursor
      have hfurther : i < j := hgoes (by omega)
      rw [if_pos hlast, hnext]
      refine ⟨by simp [Page.isLast, hnext, h.named j hlast], ?_, by omega, hlast, rfl⟩
      intro hsame
      rw [← hsame] at hi
      have heq := h.distinct j hlast i hi.2.1 hi.2.2
      omega
    · rwa [if_neg hlast] at hcursor ⊢

/-- Against an honest server a run by cursors has the first records of the list, as many as are wanted, in order and
each once, if it comes to a result; it does within a page for each record; and it asks for no position from its target
on. -/
theorem run_honest {L : List ρ} {name : Nat → String} {server : Server σ (Option String) ε (Page ρ)}
    (hserver : Honest L name server) (limits : Limits) (target : Option UInt32) (now : Nat) (state : σ) :
    let n := target.map UInt32.toNat
    let out := run limits n byCursor none server now state
    (∀ r, out.result = .ok r → r.records = upTo n L) ∧
    (max 1 L.length ≤ limits.maxPages → ∃ r, out.result = .ok r) ∧
    ∀ call ∈ out.calls, ∃ i, PointsTo name L.length call.position i ∧ ∀ m ∈ n, i < m := by
  intro n out
  by_cases hzero : n = some 0
  · have hout : out = ⟨[], .ok {}, now, state⟩ := if_pos hzero
    rw [hout, hzero]
    refine ⟨?_, fun _ => ⟨_, rfl⟩, by simp⟩
    intro r hr
    cases hr
    simp [upTo]
  · have hout : out = _ := Standing.run_eq_runFrom hzero now state
    have hstart : (Standing.start limits now state).ReadTo L (fun _ => PointsTo name L.length) 0 :=
      ⟨rfl, Nat.zero_le _, rfl⟩
    obtain ⟨hrecords, hok, hpositions⟩ := hstart.run hserver.serves (fits32 target) limits.maxPages (reached_zero hzero)
    rw [← hout, Standing.map_complete_start] at hrecords hok
    rw [← hout] at hpositions
    refine ⟨hrecords, ?_, ?_⟩
    · intro hpages
      have hwanted := length_upTo_le (target.map UInt32.toNat) L
      exact hok (by omega)
    · intro call hcall
      obtain ⟨_, i, hi, hreached⟩ := hpositions call hcall
      exact ⟨i, hi, reached_eq_false_iff.1 hreached⟩

theorem run_honest_two_of_three :
    let server : Server Unit (Option String) String (Page Nat) := fun _ call =>
      (⟨0, match call.position with
        | none => .ok { records := [10], cursor := some "1" }
        | some "1" => .ok { records := [20, 30] }
        | some "2" => .ok { records := [30], cursor := some "" }
        | _ => .error "no such position"⟩, ())
    Honest [10, 20, 30] toString server ∧
    ∃ r, (run {} (some 2) byCursor none server 0 ()).result = .ok r ∧ r.records = [10, 20] := by
  intro server
  have hserver : Honest [10, 20, 30] toString server := by
    refine ⟨by decide, by decide, ?_⟩
    intro _ call i hi
    cases hposition : call.position with
    | none =>
      rw [hposition] at hi
      obtain rfl : i = 0 := hi
      exact ⟨{ records := [10], cursor := some "1" }, 1, by simp [server, hposition], by decide⟩
    | some c =>
      rw [hposition] at hi
      obtain ⟨hpos, hlt, hc⟩ := hi
      have hcases : i = 1 ∨ i = 2 := by
        simp only [List.length_cons, List.length_nil] at hlt
        omega
      rcases hcases with rfl | rfl
      · obtain rfl : c = "1" := hc
        exact ⟨{ records := [20, 30] }, 3, by simp [server, hposition], by decide⟩
      · obtain rfl : c = "2" := hc
        exact ⟨{ records := [30], cursor := some "" }, 3, by simp [server, hposition], by decide⟩
  obtain ⟨hrecords, hok, _⟩ := run_honest hserver {} (some 2) 0 ()
  obtain ⟨r, hr⟩ := hok (by decide)
  exact ⟨hserver, r, hr, hrecords r hr⟩

end RecordSource.Paging
