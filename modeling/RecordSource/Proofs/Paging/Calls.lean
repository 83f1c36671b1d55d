import RecordSource.Proofs.Paging.Conversation

/-!
The calls that a run by cursors makes, next to what the server answers them. Each asks for at least one record and for
no more than are wanted still, and each but the first is sent with the cursor that the page before it handed out.
-/
namespace RecordSource.Paging
variable {σ κ ε π ρ : Type}

/-! How many records a call asks for. -/

theorem pageTake_le (limits : Limits) (target : Option Nat) (collected : Nat) :
    pageTake limits target collected ≤ max 1 limits.pageTake := by
  cases target with
  | none => exact Nat.le_of_eq (Nat.max_comm _ _)
  | some n =>
    rw [pageTake]
    omega

theorem pageTake_le_sub (limits : Limits) (collected : Nat) {target : Option Nat} {n : Nat} (h : n ∈ target) :
    pageTake limits target collected ≤ n - collected := by
  obtain rfl : target = some n := h
  exact Nat.min_le_right _ _

theorem one_le_pageTake (limits : Limits) {target : Option Nat} {collected : Nat}
    (h : reached target collected = false) : 1 ≤ pageTake limits target collected := by
  cases target with
  | none => exact Nat.le_max_right _ _
  | some n =>
    have hn := reached_eq_false_iff.1 h n rfl
    rw [pageTake]
    omega

/-- What a server answers to some calls, one after the other. -/
def replies (server : Server σ κ ε π) : σ → List (Call κ) → List (Reply ε π)
  | _, [] => []
  | state, call :: calls => (server state call).1 :: replies server (server state call).2 calls

/-- The records that a reply brings. -/
def Reply.records (r : Reply ε (Page ρ)) : List ρ :=
  match r.outcome with
  | .ok page => page.records
  | .error _ => []

namespace Standing
variable {limits : Limits} {target : Option Nat} {server : Server σ (Option String) ε (Page ρ)} {s : Standing σ ρ}

theorem after_succ (s : Standing σ ρ) (i : Nat) :
    s.after limits target server (i + 1) = (s.after limits target server i).next limits target server := by
  induction i generalizing s with
  | zero => rfl
  | succ i ih => exact ih (s.next limits target server)

theorem replies_calls (s : Standing σ ρ) (k : Nat) : replies server s.server (s.calls limits target server k) =
    (List.range k).map fun i => (s.after limits target server i).reply limits target server := by
  induction k generalizing s with
  | zero => rfl
  | succ k ih =>
    rw [calls_succ, replies, List.range_succ_eq_map, List.map_cons, List.map_map]
    exact congrArg _ (ih (s.next limits target server))

theorem records_next (s : Standing σ ρ) :
    (s.next limits target server).records = s.records ++ (s.reply limits target server).records := by
  cases h : (s.reply limits target server).outcome with
  | ok page => rw [next_records h, Reply.records, h]
  | error e => simp [next, records, Reply.records, h]

theorem records_after (s : Standing σ ρ) (i : Nat) :
    (s.after limits target server i).records = s.records ++
      ((List.range i).map fun j => (s.after limits target server j).reply limits target server).flatMap
        Reply.records := by
  induction i with
  | zero => simp [after]
  | succ i ih => rw [after_succ, records_next, ih, List.range_succ]; simp

/-- A call that is not the last brings a page that hands out a cursor, which the next call is sent with; it is not the
one that the call itself was sent with, and records are wanted still. -/
theorem next_of_not_ends (h : s.ends limits target server = false) :
    reached target (s.next limits target server).records.length = false ∧
    ∃ page c, (s.reply limits target server).outcome = .ok page ∧ page.cursor = some c ∧ c ≠ "" ∧
      (s.next limits target server).cursor = some c ∧ s.cursor ≠ some c := by
  unfold ends at h
  cases houtcome : (s.reply limits target server).outcome with
  | error e => simp [houtcome] at h
  | ok page =>
    simp only [houtcome, Bool.or_eq_false_iff, beq_eq_false_iff_ne] at h
    obtain ⟨⟨hopen, hlast⟩, hother⟩ := h
    refine ⟨by rw [next_records houtcome, hopen], page, ?_⟩
    cases hcursor : page.cursor with
    | none => simp [Page.isLast, hcursor] at hlast
    | some c =>
      refine ⟨c, rfl, rfl, ?_, ?_, ?_⟩
      · simpa [Page.isLast, hcursor] using hlast
      · simp [next, houtcome, hcursor]
      · rw [← hcursor]
        exact hother.symm

/-- A conversation breaks off at the first call that ends it, or at the limit. -/
theorem conversation_calls (limits : Limits) (target : Option Nat) (server : Server σ (Option String) ε (Page ρ))
    (s : Standing σ ρ) (done pages : Nat) : ∃ k ≤ pages,
    (s.conversation limits target server done pages).1 = s.calls limits target server k ∧
    ∀ i, i + 1 < k → (s.after limits target server i).ends limits target server = false := by
  unfold conversation
  cases hfind : (List.range pages).find? fun i => (s.after limits target server i).ends limits target server with
  | none =>
    refine ⟨pages, Nat.le_refl _, rfl, ?_⟩
    intro i hi
    simpa using List.find?_eq_none.1 hfind i (List.mem_range.2 (by omega))
  | some i =>
    obtain ⟨_, hi, hbefore⟩ := List.find?_range_eq_some.1 hfind
    refine ⟨i + 1, List.mem_range.1 hi, rfl, ?_⟩
    intro j hj
    simpa using hbefore j (by omega)

/-- A run that wants any records at all makes the first calls of the conversation. At each of them records are wanted
still, and none but the last one ends it. -/
theorem calls_run (hfits : Fits32 target) (hzero : target ≠ some 0) (limits : Limits)
    (server : Server σ (Option String) ε (Page ρ)) (now : Nat) (state : σ) :
    let s : Standing σ ρ := start limits now state
    ∃ k ≤ limits.maxPages, (run limits target byCursor none server now state).calls = s.calls limits target server k ∧
      ∀ i < k, reached target (s.after limits target server i).records.length = false ∧
        (i + 1 < k → (s.after limits target server i).ends limits target server = false) := by
  intro s
  have hopen : reached target s.records.length = false := reached_zero hzero
  have hrun : (runFrom limits target byCursor server limits.maxPages s.progress).calls =
      (s.conversation limits target server 0 limits.maxPages).1 :=
    congrArg Prod.fst (runFrom_eq_conversation hfits (Nat.zero_add _) hopen)
  obtain ⟨k, hk, hcalls, hgoes⟩ := conversation_calls limits target server s 0 limits.maxPages
  refine ⟨k, hk, ?_, ?_⟩
  · rw [run_eq_runFrom hzero, hrun, hcalls]
  · intro i hi
    refine ⟨?_, hgoes i⟩
    cases i with
    | zero => exact hopen
    | succ i =>
      rw [after_succ]
      exact (next_of_not_ends (hgoes i hi)).1

theorem getElem?_calls {k i : Nat} {call : Call (Option String)}
    (h : (s.calls limits target server k)[i]? = some call) :
    i < k ∧ call = (s.after limits target server i).call limits target := by
  rw [calls, List.getElem?_map, Option.map_eq_some_iff] at h
  obtain ⟨j, hj, rfl⟩ := h
  obtain ⟨hi, rfl⟩ := List.getElem?_eq_some_iff.1 hj
  simpa using hi

end Standing

/-- Against any server at all, a run by cursors keeps to its limit of pages; each call asks for at least one record, for
no more than fit in a page and for no more than the answers so far leave to be wanted; the first call is sent without a
cursor, and any other with the non-empty one of the page just before it, which the call for that page was not sent
with. -/
theorem run_calls (limits : Limits) (target : Option UInt32) (server : Server σ (Option String) ε (Page ρ)) (now : Nat)
    (state : σ) :
    let n := target.map UInt32.toNat
    let calls := (run limits n byCursor none server now state).calls
    let answers := replies server state calls
    calls.length ≤ limits.maxPages ∧
    (∀ i call, calls[i]? = some call → 1 ≤ call.take ∧ call.take ≤ max 1 limits.pageTake ∧
      ∀ m ∈ n, call.take ≤ m - ((answers.take i).flatMap Reply.records).length) ∧
    (∀ call, calls[0]? = some call → call.position = none) ∧
    ∀ i call next, calls[i]? = some call → calls[i + 1]? = some next →
      ∃ reply page c, answers[i]? = some reply ∧ reply.outcome = .ok page ∧ page.cursor = some c ∧ c ≠ "" ∧
        next.position = some c ∧ call.position ≠ some c := by
  intro n calls answers
  by_cases hzero : n = some 0
  · have hcalls : calls = [] := by
      simp only [calls, run]
      rw [if_pos hzero]
    simp [hcalls]
  · obtain ⟨k, hk, hcalls, hat⟩ := Standing.calls_run (fits32 target) hzero limits server now state
    let s : Standing σ ρ := .start limits now state
    have hanswers : answers = (List.range k).map fun i => (s.after limits n server i).reply limits n server := by
      simp only [answers, calls, n, hcalls]
      exact s.replies_calls k
    have hcall : ∀ {i call}, calls[i]? = some call → i < k ∧ call = (s.after limits n server i).call limits n := by
      intro i call h
      simp only [calls, n, hcalls] at h
      exact Standing.getElem?_calls h
    have hcollected : ∀ {i}, i < k → (answers.take i).flatMap Reply.records = (s.after limits n server i).records := by
      intro i hi
      rw [hanswers, s.records_after, ← List.map_take, List.take_range, Nat.min_eq_left (Nat.le_of_lt hi)]
      rfl
    refine ⟨?_, ?_, ?_, ?_⟩
    · simpa [calls, n, hcalls, Standing.calls] using hk
    · intro i call h
      obtain ⟨hi, rfl⟩ := hcall h
      rw [hcollected hi]
      exact ⟨one_le_pageTake limits (hat i hi).1, pageTake_le limits n _, fun m hm => pageTake_le_sub limits _ hm⟩
    · intro call h
      obtain ⟨_, rfl⟩ := hcall h
      rfl
    · intro i call next h hnext
      obtain ⟨hi, rfl⟩ := hcall h
      obtain ⟨hsucc, rfl⟩ := hcall hnext
      obtain ⟨_, page, c, hok, hcursor, hne, hposition, hother⟩ := Standing.next_of_not_ends ((hat i hi).2 hsucc)
      refine ⟨(s.after limits n server i).reply limits n server, page, c, ?_, hok, hcursor, hne, ?_, hother⟩
      · simp [hanswers, hi]
      · rw [Standing.after_succ]
        exact hposition

/-- A server that hands out a new cursor with every page: two records, none, and two more than are asked for. -/
theorem run_calls_of_three :
    let server : Server Unit (Option String) String (Page Nat) := fun _ call =>
      (⟨0, match call.position with
        | none => .ok { records := [10, 20], cursor := some "a" }
        | some "a" => .ok { records := [], cursor := some "b" }
        | _ => .ok { records := [30, 40, 50], cursor := some "c" }⟩, ())
    let calls := (run { pageTake := 2 } (some 3) byCursor none server 0 ()).calls
    calls = [⟨0, 2, none⟩, ⟨167, 1, some "a"⟩, ⟨334, 1, some "b"⟩] ∧ calls.length ≤ 10000 ∧
    1 ≤ 3 - ((replies server () calls).take 2 |>.flatMap Reply.records).length := by
  intro server calls
  have hcalls : calls = [⟨0, 2, none⟩, ⟨167, 1, some "a"⟩, ⟨334, 1, some "b"⟩] := by decide
  obtain ⟨hlength, htakes, _⟩ := run_calls { pageTake := 2 } (some 3) server 0 ()
  obtain ⟨_, _, hwanted⟩ := htakes 2 ⟨334, 1, some "b"⟩ (congrArg (·[2]?) hcalls)
  exact ⟨hcalls, hlength, hwanted 3 rfl⟩

end RecordSource.Paging
