import RecordSource.Proofs.Paging.Conversation

/-!
Runs by cursors against a server that hands a list out in slices of its own choice, and in cursors of its own choice:
what a cursor stands for may change with the state of the server. A run gathers the list position by position until it
has what is wanted.
-/
namespace RecordSource.Paging
variable {σ ε ρ : Type}

/-- A server that hands out a list. `stands state cursor i` says that in this state the cursor stands for the position,
as none does for the start. Asked from a position the server answers with the records up to a later one, as long as
there are any; if the list goes on there, it hands out another cursor, which stands for that position from then on. -/
structure Serves (L : List ρ) (stands : σ → Option String → Nat → Prop)
    (server : Server σ (Option String) ε (Page ρ)) : Prop where
  start : ∀ state, stands state none 0
  answers : ∀ state call i, stands state call.position i → ∃ page j,
    (server state call).1.outcome = .ok page ∧ page.records = (L.drop i).take (j - i) ∧ i ≤ j ∧ j ≤ L.length ∧
    (i < L.length → i < j) ∧
    if j < L.length then
      page.isLast = false ∧ page.cursor ≠ call.position ∧ stands (server state call).2 page.cursor j
    else page.isLast = true

theorem upTo_take {L : List ρ} {target : Option Nat} {n : Nat} (h : reached target n = true ∨ L.length ≤ n) :
    upTo target (L.take n) = upTo target L := by
  rcases h with h | h
  · cases target with
    | none => cases h
    | some m =>
      have hm : m ≤ n := by simpa [reached] using h
      rw [upTo, upTo, List.take_take, Nat.min_eq_left hm]
  · rw [List.take_of_length_le h]

theorem length_upTo_le (target : Option Nat) (L : List ρ) : (upTo target L).length ≤ L.length := by
  cases target with
  | none => exact Nat.le_refl _
  | some n => exact List.length_take_le' n L

theorem lt_length_upTo {L : List ρ} {target : Option Nat} {i : Nat} (hi : i < L.length)
    (hopen : reached target i = false) : i < (upTo target L).length := by
  cases target with
  | none => exact hi
  | some n =>
    have hn := reached_eq_false_iff.1 hopen n rfl
    rw [upTo, List.length_take]
    omega

namespace Standing
variable {L : List ρ} {stands : σ → Option String → Nat → Prop} {server : Server σ (Option String) ε (Page ρ)}
  {limits : Limits} {target : Option Nat} {s : Standing σ ρ}

/-- The records up to a position are there, and the client goes on from it. -/
structure ReadTo (L : List ρ) (stands : σ → Option String → Nat → Prop) (s : Standing σ ρ) (i : Nat) : Prop where
  cursor : stands s.server s.cursor i
  bounded : i ≤ L.length
  records : s.records = L.take i

theorem ReadTo.reached {i : Nat} (h : s.ReadTo L stands i) :
    reached target s.records.length = reached target i := by
  rw [h.records, List.length_take, Nat.min_eq_left h.bounded]

/-- A call from a position either ends the run with the records that are wanted, or leads on to a later position. -/
theorem ReadTo.step {i : Nat} (h : s.ReadTo L stands i) (hserver : Serves L stands server) (limits : Limits)
    (target : Option Nat) :
    (s.ends limits target server = true ∧ ∀ k, ∃ total,
      s.result limits target server k = .ok ⟨upTo target L, total⟩) ∨
    (s.ends limits target server = false ∧ ∃ j, i < j ∧ j < L.length ∧
      (s.next limits target server).ReadTo L stands j) := by
  obtain ⟨page, j, hok, hpage, hij, hj, hgoes, hcursor⟩ :=
    hserver.answers s.server (s.call limits target) i h.cursor
  have houtcome : (s.reply limits target server).outcome = .ok page := hok
  have hrecords : s.records ++ page.records = L.take j := by
    rw [h.records, hpage, ← List.take_add, Nat.add_sub_cancel' hij]
  have hlength : (L.take j).length = j := by rw [List.length_take, Nat.min_eq_left hj]
  have hover : (Paging.reached target j || page.isLast) = true → upTo target (L.take j) = upTo target L →
      s.ends limits target server = true ∧
      ∀ k, ∃ total, s.result limits target server k = .ok ⟨upTo target L, total⟩ := by
    intro hstop hwanted
    unfold ends result
    simp only [houtcome, hrecords, hlength, hstop, Bool.true_or, if_true, hwanted]
    exact ⟨trivial, fun k => ⟨_, rfl⟩⟩
  by_cases hlast : j < L.length
  · rw [if_pos hlast] at hcursor
    obtain ⟨hnotLast, hother, hstands⟩ := hcursor
    cases hreached : Paging.reached target j with
    | true => exact .inl (hover (by rw [hreached, Bool.true_or]) (upTo_take (.inl hreached)))
    | false =>
      have hnew : (page.cursor == s.cursor) = false := beq_eq_false_iff_ne.2 hother
      right
      refine ⟨?_, j, hgoes (by omega), hlast, ?_, hj, ?_⟩
      · simp only [ends, houtcome, hrecords, hlength, hreached, hnotLast, hnew, Bool.or_self]
      · simp only [next, houtcome]
        exact hstands
      · rw [next_records houtcome, hrecords]
  · rw [if_neg hlast] at hcursor
    exact .inl (hover (by rw [hcursor, Bool.or_true]) (upTo_take (.inr (by omega))))

/-- A run from a position on has the records that are wanted if it comes to a result, which it does within a page for
each of them; and it asks for no position from its target on. -/
theorem ReadTo.run (hserver : Serves L stands server) (hfits : Fits32 target) (pages : Nat) {i : Nat}
    (h : s.ReadTo L stands i) (hopen : Paging.reached target i = false) :
    let out := runFrom limits target byCursor server pages s.progress
    (∀ r, out.result.map s.complete = .ok r → r.records = upTo target L) ∧
    (max 1 ((upTo target L).length - i) ≤ pages → ∃ r, out.result.map s.complete = .ok r) ∧
    ∀ call ∈ out.calls, ∃ state k, stands state call.position k ∧ Paging.reached target k = false := by
  induction pages generalizing s i with
  | zero =>
    intro out
    refine ⟨?_, ?_, ?_⟩
    · intro r hr
      cases hr
    · intro hpages
      omega
    · intro call hcall
      cases hcall
  | succ pages ih =>
    intro out
    rcases h.step hserver limits target with ⟨hends, hresult⟩ | ⟨hends, j, hij, hj, hnext⟩
    · obtain ⟨total, hk⟩ := hresult (limits.maxPages - pages)
      have hopen' : Paging.reached target s.records.length = false := by rw [h.reached, hopen]
      obtain ⟨hcalls, hout⟩ := runFrom_of_ends hfits pages hopen' hends
      rw [hk] at hout
      refine ⟨?_, ?_, ?_⟩
      · intro r hr
        rw [hout] at hr
        cases hr
        rfl
      · intro _
        exact ⟨_, hout⟩
      · rw [hcalls]
        exact List.forall_mem_singleton.2 ⟨_, i, h.cursor, hopen⟩
    · obtain ⟨hcalls, hout, hstill⟩ := runFrom_of_not_ends hfits pages hends
      rw [hnext.reached] at hstill
      obtain ⟨hrecords, hok, hpositions⟩ := ih hnext hstill
      have hwanted := lt_length_upTo hj hstill
      rw [hout, hcalls]
      refine ⟨hrecords, ?_, List.forall_mem_cons.2 ⟨⟨_, i, h.cursor, hopen⟩, hpositions⟩⟩
      intro hpages
      -- The page brought the position on by one record at least, so one page less is enough from there.
      exact hok (by omega)

end Standing

/-- A run against a server that hands out a list comes to the records that are wanted if it may fetch a page for each
of them. -/
theorem Serves.run {L : List ρ} {stands : σ → Option String → Nat → Prop}
    {server : Server σ (Option String) ε (Page ρ)} (hserver : Serves L stands server) {limits : Limits}
    {target : Option Nat} (hfits : Fits32 target) (hpages : max 1 (upTo target L).length ≤ limits.maxPages) (now : Nat)
    (state : σ) : ∃ r, (run limits target byCursor none server now state).result = .ok r ∧
      r.records = upTo target L := by
  by_cases hzero : target = some 0
  · refine ⟨{}, ?_, by simp [hzero, upTo]⟩
    rw [Paging.run, if_pos hzero]
  · have hstart : (Standing.start limits now state).ReadTo L stands 0 := ⟨hserver.start state, Nat.zero_le _, rfl⟩
    obtain ⟨hrecords, hok, _⟩ := hstart.run hserver hfits limits.maxPages (reached_zero hzero)
    rw [Standing.map_complete_start, ← Standing.run_eq_runFrom hzero] at hrecords hok
    obtain ⟨r, hr⟩ := hok hpages
    exact ⟨r, hr, hrecords r hr⟩

end RecordSource.Paging
