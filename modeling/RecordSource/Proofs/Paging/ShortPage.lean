import RecordSource.Proofs.Paging.Replies

/-!
Runs by offsets without a target, whatever the server answers. One full page follows another until a page comes short or
brings the records up to the total stated last, so if records are missing from that total it was a short page that ended
the run.
-/
namespace RecordSource.Paging
variable {σ ε ρ : Type}

/-- The total stated last: by the latest of some pages that states one, or earlier. -/
def statedTotal (earlier : Option Nat) (pages : List (OffsetPage ρ)) : Option Nat :=
  pages.foldl (fun total page => page.total.or total) earlier

/-- What becomes of pages of up to `take` records when so many are collected already and this was the total stated last:
a short page is the last one, and so is a full one that reaches the total; after any other full page come more. -/
inductive Gathers (take : Nat) : Nat → Option Nat → List (OffsetPage ρ) → Retrieved ρ → Prop
  | short {collected : Nat} {total : Option Nat} {page : OffsetPage ρ} (hshort : page.records.length < take) :
      Gathers take collected total [page] ⟨page.records, page.total.or total⟩
  | complete {collected : Nat} {total : Option Nat} {page : OffsetPage ρ} {n : Nat}
      (htotal : page.total.or total = some n) (hreached : n ≤ collected + page.records.length) :
      Gathers take collected total [page] ⟨page.records, page.total.or total⟩
  | onward {collected : Nat} {total : Option Nat} {page : OffsetPage ρ} {pages : List (OffsetPage ρ)}
      {r : Retrieved ρ} (hfull : take ≤ page.records.length)
      (h : Gathers take (collected + page.records.length) (page.total.or total) pages r) :
      Gathers take collected total (page :: pages) { r with records := page.records ++ r.records }

namespace Gathers
variable {take collected : Nat} {total : Option Nat} {pages : List (OffsetPage ρ)} {r : Retrieved ρ}

/-- Nothing that the pages bring is lost. -/
theorem records_eq (h : Gathers take collected total pages r) : r.records = pages.flatMap OffsetPage.records := by
  induction h with
  | short | complete => simp
  | onward _ _ ih => simp [ih]

theorem total_eq (h : Gathers take collected total pages r) : r.total = statedTotal total pages := by
  induction h with
  | short | complete => rfl
  | onward _ _ ih => exact ih

/-- All pages but the last are full; the last is short, or with it the records reach the total stated last. -/
theorem last_short_or_reached (h : Gathers take collected total pages r) : ∃ full last, pages = full ++ [last] ∧
    (∀ page ∈ full, take ≤ page.records.length) ∧
    (last.records.length < take ∨ ∃ n, r.total = some n ∧ n ≤ collected + r.records.length) := by
  induction h with
  | short hshort => exact ⟨[], _, rfl, by simp, .inl hshort⟩
  | complete htotal hreached => exact ⟨[], _, rfl, by simp, .inr ⟨_, htotal, hreached⟩⟩
  | onward hfull _ ih =>
    obtain ⟨full, last, rfl, hfulls, hend⟩ := ih
    refine ⟨_ :: full, last, rfl, List.forall_mem_cons.2 ⟨hfull, hfulls⟩, ?_⟩
    rw [List.length_append, ← Nat.add_assoc]
    exact hend

end Gathers

/-- As counts have 32 bits, those below a number of 32 bits are exact. -/
theorem counted_lt_iff {records n : Nat} (h : n < UInt32.size) : counted records < n ↔ records < n := by
  have hsize : UInt32.size = 4294967295 + 1 := rfl
  unfold counted
  omega

theorem le_of_reached_counted {total : Option Nat} {records : Nat} (h : reached total (counted records) = true) :
    ∃ n, total = some n ∧ n ≤ records := by
  cases total with
  | none => cases h
  | some n =>
    have hn : n ≤ counted records := by simpa [reached] using h
    exact ⟨n, rfl, Nat.le_trans hn (Nat.min_le_left _ _)⟩

theorem verdict_byOffset_none {call : Call Nat} (htake : call.take < UInt32.size) (collected : Nat)
    (total : Option Nat) (page : OffsetPage ρ) :
    byOffset.verdict none collected total call page =
      if page.records.length < call.take ∨ reached total (counted collected) = true then .over
      else .onward (counted collected) := by
  have hnone : reached none (counted collected) = false := rfl
  simp [byOffset, hnone, counted_lt_iff htake]

section
variable {limits : Limits} {server : Server σ Nat ε (OffsetPage ρ)}

theorem take_call_none (limits : Limits) (p : Progress σ Nat) : (p.call limits none).take = max 1 limits.pageTake :=
  Nat.max_comm _ _

/-- A run that comes to a result has gathered the pages that it was sent. -/
theorem gathers_of_runFrom (hsize : limits.pageTake < UInt32.size) (pages : Nat) (p : Progress σ Nat)
    {r : Retrieved ρ} (hr : (runFrom limits none byOffset server pages p).result = .ok r) :
    let calls := (runFrom limits none byOffset server pages p : Outcome σ Nat ε ρ).calls
    (∀ call ∈ calls, call.take = max 1 limits.pageTake) ∧
    ∃ sent, outcomes server p.server calls = sent.map .ok ∧
      Gathers (max 1 limits.pageTake) p.collected p.total sent r := by
  intro calls
  induction pages generalizing p r with
  | zero => cases hr
  | succ pages ih =>
    have htake := take_call_none limits p
    cases hreply : (server p.server (p.call limits none)).1.outcome with
    | error e =>
      rw [(runFrom_of_error byOffset hreply pages).2.1] at hr
      cases hr
    | ok page =>
      have hfits : (p.call limits none).take < UInt32.size := by
        rw [htake]
        exact Nat.max_lt.2 ⟨by decide, hsize⟩
      have hverdict := verdict_byOffset_none hfits (p.collected + page.records.length) (page.total.or p.total) page
      rw [htake] at hverdict
      split at hverdict
      · next hlast =>
        obtain ⟨hcalls, hresult⟩ := runFrom_of_over hreply pages hverdict
        rw [hresult] at hr
        cases hr
        simp only [calls, hcalls]
        refine ⟨List.forall_mem_singleton.2 htake, [page], by rw [outcomes_cons, hreply]; rfl, ?_⟩
        rcases hlast with hshort | hreached
        · exact .short hshort
        · obtain ⟨n, htotal, hn⟩ := le_of_reached_counted hreached
          exact .complete htotal hn
      · next hopen =>
        obtain ⟨p', _, hcollected, htotal, hserver, hcalls, hresult⟩ := runFrom_of_onward hreply pages hverdict
        rw [hresult] at hr
        obtain ⟨rest, hrest, rfl⟩ := RecordSource.Outcome.map_eq_ok_iff.1 hr
        obtain ⟨htakes, sent, hsent, hgathers⟩ := ih p' hrest
        rw [hcollected, htotal] at hgathers
        simp only [calls, hcalls]
        refine ⟨List.forall_mem_cons.2 ⟨htake, htakes⟩, page :: sent, ?_, ?_⟩
        · rw [outcomes_cons, hreply, ← hserver, hsent]
          rfl
        · exact .onward (Nat.le_of_not_lt fun hshort => hopen (.inl hshort)) hgathers

end

/-- Against any server at all, if a run by offsets without a target comes to a result, this has the records of all pages
in order and the total stated last. Every call asked for as many records as fit in a page, and every page but the last
brought as many. If a total was stated, the result has no fewer records unless the last page came short; if none was,
the last page did come short. -/
theorem run_reaches_total_or_short {limits : Limits} (hsize : limits.pageTake < UInt32.size)
    (server : Server σ Nat ε (OffsetPage ρ)) (now : Nat) (state : σ) {r : Retrieved ρ}
    (hr : (run limits none byOffset 0 server now state).result = .ok r) :
    let take := max 1 limits.pageTake
    let calls := (run limits none byOffset 0 server now state : Outcome σ Nat ε ρ).calls
    (∀ call ∈ calls, call.take = take) ∧
    ∃ full last, outcomes server state calls = (full ++ [last]).map .ok ∧
      (∀ page ∈ full, take ≤ page.records.length) ∧
      r.records = (full ++ [last]).flatMap OffsetPage.records ∧ r.total = statedTotal none (full ++ [last]) ∧
      (∀ n, r.total = some n → n ≤ r.records.length ∨ last.records.length < take) ∧
      (r.total = none → last.records.length < take) := by
  intro take calls
  obtain ⟨htakes, sent, hsent, hgathers⟩ := gathers_of_runFrom hsize limits.maxPages _ hr
  obtain ⟨full, last, rfl, hfull, hend⟩ := hgathers.last_short_or_reached
  refine ⟨htakes, full, last, hsent, hfull, hgathers.records_eq, hgathers.total_eq, ?_, ?_⟩
  · intro n hn
    rcases hend with hshort | ⟨m, hm, hle⟩
    · exact .inr hshort
    · obtain rfl : m = n := Option.some.inj (hm.symm.trans hn)
      exact .inl (by simpa using hle)
  · intro hnone
    rcases hend with hshort | ⟨m, hm, _⟩
    · exact hshort
    · cases hnone.symm.trans hm

/-- Two full pages, and no third call as the second brings the records up to the total. -/
theorem run_reaches_total_or_short_two_full_pages :
    let server : Server Unit Nat String (OffsetPage Nat) := fun _ call =>
      (⟨0, .ok { records := ([10, 20, 30, 40].drop call.position).take call.take, total := some 4 }⟩, ())
    let out := run { pageTake := 2 } none byOffset 0 server 0 ()
    2 < UInt32.size ∧ out.result = .ok ⟨[10, 20, 30, 40], some 4⟩ ∧ (∀ call ∈ out.calls, call.take = 2) := by
  intro server out
  have hresult : out.result = .ok ⟨[10, 20, 30, 40], some 4⟩ := by rfl
  exact ⟨by decide, hresult, (run_reaches_total_or_short (by decide) server 0 () hresult).1⟩

/-- A server that sends two records at most, whatever it is asked for, ends the run short of the total it states. -/
theorem exists_total_beyond_records :
    let server : Server Unit Nat String (OffsetPage Nat) := fun _ call =>
      (⟨0, .ok { records := ([0, 1, 2, 3].drop call.position).take (min call.take 2), total := some 4 }⟩, ())
    ∃ r, (run { pageTake := 5 } none byOffset 0 server 0 ()).result = .ok r ∧ ¬ ∀ n, r.total = some n →
      n ≤ r.records.length := by
  intro server
  refine ⟨⟨[0, 1], some 4⟩, rfl, ?_⟩
  intro hall
  exact absurd (hall 4 rfl) (by decide)

end RecordSource.Paging
