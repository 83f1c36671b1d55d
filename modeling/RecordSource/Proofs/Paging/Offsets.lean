import RecordSource.Outcome
import RecordSource.Proofs.Paging.Calls
import RecordSource.Proofs.Paging.Serving

/-!
Runs by offsets against a server that hands out the range of a list that it is asked for. A run asks for ranges that
follow one another from the start, and if it comes to a result it has the records of the list in order, each once, as
many as are wanted.
-/
namespace RecordSource.Paging
variable {σ κ ε π ρ : Type}

/-! One page of a run in any style. -/

/-- The next call of a run. -/
def Progress.call (limits : Limits) (target : Option Nat) (p : Progress σ κ) : Call κ :=
  ⟨p.pacer.start p.now, pageTake limits target (counted p.collected), p.position⟩

section
variable {limits : Limits} {target : Option Nat} {style : Style κ π ρ} {server : Server σ κ ε π} {p : Progress σ κ}
  {page : π} (hok : (server p.server (p.call limits target)).1.outcome = .ok page)
include hok

theorem runFrom_of_over (pages : Nat) (hverdict : style.verdict target (p.collected + (style.records page).length)
      ((style.total page).or p.total) (p.call limits target) page = .over) :
    let out := runFrom limits target style server (pages + 1) p
    out.calls = [p.call limits target] ∧
    out.result = .ok ⟨wanted target p.collected (style.records page), (style.total page).or p.total⟩ := by
  unfold Progress.call at hok hverdict
  simp only [runFrom, hok, hverdict]
  exact ⟨rfl, trivial⟩

theorem runFrom_of_onward (pages : Nat) {next : κ} (hverdict : style.verdict target
      (p.collected + (style.records page).length) ((style.total page).or p.total) (p.call limits target) page =
        .onward next) :
    let out := runFrom limits target style server (pages + 1) p
    ∃ p' : Progress σ κ, p'.position = next ∧ p'.collected = p.collected + (style.records page).length ∧
      p'.total = (style.total page).or p.total ∧ p'.server = (server p.server (p.call limits target)).2 ∧
      let rest := runFrom limits target style server pages p'
      out.calls = p.call limits target :: rest.calls ∧
      out.result = rest.result.map fun r => { r with records := style.records page ++ r.records } := by
  unfold Progress.call at hok hverdict
  simp only [runFrom, hok, hverdict]
  exact ⟨_, rfl, rfl, rfl, rfl, rfl, rfl⟩

end

/-- A server that hands out the ranges of a list, with the right total wherever it states one. -/
def Slices (L : List ρ) (server : Server σ Nat ε (OffsetPage ρ)) : Prop :=
  ∀ state call, ∃ page, (server state call).1.outcome = .ok page ∧
    page.records = (L.drop call.position).take call.take ∧ ∀ n ∈ page.total, n = L.length

/-- The calls are for ranges that follow one another from a position on. -/
def Tile : Nat → List (Call Nat) → Prop
  | _, [] => True
  | i, call :: calls => call.position = i ∧ Tile (i + call.take) calls

theorem Tile.le_position {i : Nat} {calls : List (Call Nat)} (h : Tile i calls) :
    ∀ call ∈ calls, i ≤ call.position := by
  induction calls generalizing i with
  | nil => simp
  | cons call calls ih =>
    rw [List.forall_mem_cons]
    refine ⟨Nat.le_of_eq h.1.symm, ?_⟩
    intro other hother
    exact Nat.le_trans (Nat.le_add_right _ _) (ih h.2 other hother)

theorem Tile.disjoint {i : Nat} {calls : List (Call Nat)} (h : Tile i calls) :
    calls.Pairwise fun a b => a.position + a.take ≤ b.position := by
  induction calls generalizing i with
  | nil => exact .nil
  | cons call calls ih =>
    refine .cons ?_ (ih h.2)
    rw [h.1]
    exact h.2.le_position

theorem counted_of_le {n : Nat} (h : n ≤ 4294967295) : counted n = n := Nat.min_eq_left h

/-- A run by offsets stands at a position: the records up to it are there. -/
structure Progress.IsAt (L : List ρ) (p : Progress σ Nat) (i : Nat) : Prop where
  position : p.position = i
  collected : p.collected = i
  bounded : i ≤ L.length
  total : ∀ n ∈ p.total, n = L.length

/-- The records of a list that are wanted from a position on. -/
def remaining (target : Option Nat) (L : List ρ) (i : Nat) : List ρ := wanted target i (L.drop i)

section
variable {L : List ρ} {limits : Limits} {target : Option Nat}

/-- A range that reaches up to the target or the end of the list holds all that remains. -/
theorem wanted_slice {i take : Nat} (h : reached target (i + take) = true ∨ L.length ≤ i + take) :
    wanted target i ((L.drop i).take take) = remaining target L i := by
  rcases h with h | h
  · cases target with
    | none => cases h
    | some n =>
      have hn : n ≤ i + take := by simpa [reached] using h
      rw [remaining, wanted, wanted, List.take_take, Nat.min_eq_left (by omega)]
  · rw [remaining, List.take_of_length_le (by rw [List.length_drop]; omega)]

/-- What remains is a range short of the target, and what remains after it. -/
theorem slice_append_remaining {i take : Nat} (h : reached target (i + take) = false) :
    (L.drop i).take take ++ remaining target L (i + take) = remaining target L i := by
  cases target with
  | none => rw [remaining, remaining, wanted, wanted, ← List.drop_drop, List.take_append_drop]
  | some n =>
    have hn : i + take < n := reached_eq_false_iff.1 h n rfl
    have hsplit : n - i = take + (n - (i + take)) := by omega
    rw [remaining, remaining, wanted, wanted, hsplit, List.take_add, List.drop_drop]

theorem le_upTo_of_open {i : Nat} (hi : i ≤ L.length) (hopen : reached target i = false) :
    i ≤ (upTo target L).length := by
  cases target with
  | none => exact hi
  | some n =>
    have hn := reached_eq_false_iff.1 hopen n rfl
    rw [upTo, List.length_take]
    omega

/-- A range that asks for no more than is wanted ends within the records that are. -/
theorem length_le_of_open {i take : Nat} (hi : i ≤ L.length) (htake : ∀ n ∈ target, take ≤ n - i)
    (hopen : reached target i = false) : i + ((L.drop i).take take).length ≤ (upTo target L).length := by
  rw [List.length_take, List.length_drop]
  cases target with
  | none =>
    rw [upTo]
    omega
  | some n =>
    have hn : i < n := reached_eq_false_iff.1 hopen n rfl
    have hle := htake n rfl
    rw [upTo, List.length_take]
    omega

/-- A call that leaves records to be wanted asks for a full page. -/
theorem pageTake_of_open {i : Nat} (h : reached target (i + pageTake limits target i) = false) :
    pageTake limits target i = max 1 limits.pageTake := by
  cases target with
  | none => exact Nat.max_comm _ _
  | some n =>
    have hn := reached_eq_false_iff.1 h n rfl
    rw [pageTake] at hn ⊢
    omega

/-- As long as counts of 32 bits are exact, a page is the last one if it reaches the target, comes short or reaches the
stated total. -/
theorem verdict_byOffset {collected : Nat} (hcollected : collected ≤ 4294967295) {page : OffsetPage ρ}
    (hpage : page.records.length ≤ collected) (target total : Option Nat) (call : Call Nat) :
    byOffset.verdict target collected total call page =
      if reached target collected || (decide (page.records.length < call.take) || reached total collected) then .over
      else .onward collected := by
  simp only [byOffset, counted_of_le hcollected, counted_of_le (Nat.le_trans hpage hcollected)]
  cases reached target collected <;> rfl

/-- A page that is the last one reaches up to the target or the end of the list. -/
theorem last_reaches {i take : Nat} {total : Option Nat} (htotal : ∀ n ∈ total, n = L.length)
    (h : (reached target (i + ((L.drop i).take take).length) ||
      (decide (((L.drop i).take take).length < take) || reached total (i + ((L.drop i).take take).length))) = true) :
    reached target (i + take) = true ∨ L.length ≤ i + take := by
  rw [List.length_take, List.length_drop] at h
  simp only [Bool.or_eq_true, decide_eq_true_eq] at h
  rcases h with htarget | hshort | hend
  · left
    cases target with
    | none => cases htarget
    | some n =>
      simp only [reached, decide_eq_true_eq] at htarget ⊢
      omega
  · right
    omega
  · right
    cases total with
    | none => cases hend
    | some n =>
      obtain rfl := htotal n rfl
      simp only [reached, decide_eq_true_eq] at hend
      omega

end

namespace Progress
variable {L : List ρ} {limits : Limits} {target : Option Nat} {server : Server σ Nat ε (OffsetPage ρ)}
  {p : Progress σ Nat} {i : Nat}

theorem IsAt.take_eq (h : p.IsAt L i) (hcount : (upTo target L).length ≤ 4294967295) (hopen : reached target i = false)
    (limits : Limits) : (p.call limits target).take = pageTake limits target i := by
  have hcounted : counted p.collected = i := by
    rw [h.collected, counted_of_le (Nat.le_trans (le_upTo_of_open h.bounded hopen) hcount)]
  rw [call, hcounted]

/-- A call from a position either ends the run with all the records that remain, or brings a full page of them and
leads on to the position after it. -/
theorem IsAt.step (h : p.IsAt L i) (hserver : Slices L server) (hcount : (upTo target L).length ≤ 4294967295)
    (hopen : reached target i = false) (pages : Nat) :
    let take := pageTake limits target i
    let out := runFrom limits target byOffset server (pages + 1) p
    (out.calls = [p.call limits target] ∧ ∃ total, out.result = .ok ⟨remaining target L i, total⟩) ∨
    (reached target (i + take) = false ∧ i + take ≤ (upTo target L).length ∧
      ∃ p' : Progress σ Nat, p'.IsAt L (i + take) ∧
        let rest := runFrom limits target byOffset server pages p'
        out.calls = p.call limits target :: rest.calls ∧
        out.result = rest.result.map fun r => { r with records := (L.drop i).take take ++ r.records }) := by
  intro take out
  obtain ⟨page, hok, hrecords, htotal⟩ := hserver p.server (p.call limits target)
  have htake : (p.call limits target).take = take := h.take_eq hcount hopen limits
  have hslice : byOffset.records page = (L.drop i).take take := by
    rw [← htake, ← h.position]
    exact hrecords
  have hle : i + (byOffset.records page).length ≤ (upTo target L).length := by
    rw [hslice]
    exact length_le_of_open h.bounded (fun n hn => pageTake_le_sub limits i hn) hopen
  have hend : ∀ n ∈ (byOffset.total page).or p.total, n = L.length := by
    intro n hn
    rcases Option.or_eq_some_iff.1 hn with hn | ⟨_, hn⟩
    · exact htotal n hn
    · exact h.total n hn
  have hverdict := verdict_byOffset (Nat.le_trans hle hcount) (Nat.le_add_left _ i) target
    ((byOffset.total page).or p.total) (p.call limits target)
  rw [htake, show page.records = byOffset.records page from rfl] at hverdict
  rw [← h.collected] at hverdict
  split at hverdict
  · next hlast =>
    obtain ⟨hcalls, hresult⟩ := runFrom_of_over hok pages hverdict
    rw [h.collected, hslice] at hlast
    rw [h.collected, hslice, wanted_slice (last_reaches hend hlast)] at hresult
    exact .inl ⟨hcalls, _, hresult⟩
  · next hlast =>
    obtain ⟨p', hposition, hcollected, htotal, _, hcalls, hresult⟩ := runFrom_of_onward hok pages hverdict
    rw [h.collected] at hposition hcollected hlast
    -- The page is full, so the next position is where its range ends.
    have hfull : (byOffset.records page).length = take := by
      have hshort : take ≤ (byOffset.records page).length := by simp at hlast; omega
      rw [hslice] at hshort ⊢
      exact Nat.le_antisymm (List.length_take_le _ _) hshort
    rw [hfull] at hposition hcollected hlast hle
    rw [hslice] at hresult
    have hopen' : reached target (i + take) = false := by simp at hlast; exact hlast.1
    have hbounded := Nat.le_trans hle (length_upTo_le target L)
    exact .inr ⟨hopen', hle, p', ⟨hposition, hcollected, hbounded, htotal ▸ hend⟩, hcalls, hresult⟩

/-- A run from a position on has the records that remain if it comes to a result, which it does if it may fetch as many
pages as these fill and one more; and it asks for ranges that follow one another. -/
theorem IsAt.run (hserver : Slices L server) (hcount : (upTo target L).length ≤ 4294967295) (pages : Nat)
    (h : p.IsAt L i) (hopen : reached target i = false) :
    let out := runFrom limits target byOffset server pages p
    (∀ r, out.result = .ok r → r.records = remaining target L i) ∧
    (((upTo target L).length - i) / max 1 limits.pageTake < pages → ∃ r, out.result = .ok r) ∧
    Tile i out.calls ∧ ∀ call ∈ out.calls, 1 ≤ call.take ∧ call.take ≤ max 1 limits.pageTake := by
  induction pages generalizing p i with
  | zero =>
    intro out
    refine ⟨?_, ?_, trivial, ?_⟩
    · intro r hr
      cases hr
    · intro hpages
      exact absurd hpages (Nat.not_lt_zero _)
    · intro call hcall
      cases hcall
  | succ pages ih =>
    intro out
    have htake := h.take_eq hcount hopen limits
    have hcall : 1 ≤ (p.call limits target).take ∧ (p.call limits target).take ≤ max 1 limits.pageTake := by
      rw [htake]
      exact ⟨one_le_pageTake limits hopen, pageTake_le limits target i⟩
    rcases h.step hserver hcount hopen pages with
      ⟨hcalls, total, hresult⟩ | ⟨hopen', hle, p', hnext, hcalls, hresult⟩
    · rw [hcalls, hresult]
      refine ⟨?_, fun _ => ⟨_, rfl⟩, ⟨h.position, trivial⟩, List.forall_mem_singleton.2 hcall⟩
      intro r hr
      cases hr
      rfl
    · obtain ⟨hrecords, hok, htile, hcalls'⟩ := ih hnext hopen'
      rw [hcalls, hresult]
      refine ⟨?_, ?_, ⟨h.position, by rwa [htake]⟩, List.forall_mem_cons.2 ⟨hcall, hcalls'⟩⟩
      · intro r hr
        obtain ⟨rest, hrest, rfl⟩ := RecordSource.Outcome.map_eq_ok_iff.1 hr
        rw [hrecords rest hrest, slice_append_remaining hopen']
      · intro hpages
        have hfull := pageTake_of_open hopen'
        have hpage : 0 < max 1 limits.pageTake := by omega
        rw [Nat.div_eq_sub_div hpage (by omega)] at hpages
        obtain ⟨rest, hrest⟩ := hok (by rw [hfull, ← Nat.sub_sub]; omega)
        exact ⟨_, by rw [hrest]; rfl⟩

end Progress

/-- What a run by offsets comes to as long as fewer than 2^32 records are wanted. -/
theorem Slices.run {L : List ρ} {server : Server σ Nat ε (OffsetPage ρ)} (hserver : Slices L server)
    {target : Option Nat} (hcount : (upTo target L).length ≤ 4294967295) (limits : Limits) (now : Nat) (state : σ) :
    let out := run limits target byOffset 0 server now state
    (∀ r, out.result = .ok r → r.records = upTo target L) ∧
    ((upTo target L).length / max 1 limits.pageTake < limits.maxPages → ∃ r, out.result = .ok r) ∧
    Tile 0 out.calls ∧ ∀ call ∈ out.calls, 1 ≤ call.take ∧ call.take ≤ max 1 limits.pageTake := by
  intro out
  by_cases hzero : target = some 0
  · have hout : out = ⟨[], .ok {}, now, state⟩ := if_pos hzero
    rw [hout]
    refine ⟨?_, fun _ => ⟨_, rfl⟩, trivial, by simp⟩
    intro r hr
    cases hr
    simp [hzero, upTo]
  · have hout : out = runFrom limits target byOffset server limits.maxPages _ := if_neg hzero
    rw [hout]
    refine Progress.IsAt.run hserver hcount limits.maxPages ?_ (reached_zero hzero)
    exact ⟨rfl, rfl, Nat.zero_le _, by simp⟩

/-- Against a server that hands out the ranges of a list of fewer than 2^32 records, a run by offsets has the first
records of the list, as many as are wanted, if it comes to a result; it does if it may fetch as many pages as the list
fills and one more. It asks for ranges that follow one another from the start and have no record in common, each of at
least one record and of no more than fit in a page. -/
theorem run_slices {L : List ρ} (hlength : L.length < UInt32.size) {server : Server σ Nat ε (OffsetPage ρ)}
    (hserver : Slices L server) (limits : Limits) (target : Option UInt32) (now : Nat) (state : σ) :
    let n := target.map UInt32.toNat
    let out := run limits n byOffset 0 server now state
    (∀ r, out.result = .ok r → r.records = upTo n L) ∧
    (L.length / max 1 limits.pageTake + 1 ≤ limits.maxPages → ∃ r, out.result = .ok r) ∧
    Tile 0 out.calls ∧ (out.calls.Pairwise fun a b => a.position + a.take ≤ b.position) ∧
    ∀ call ∈ out.calls, 1 ≤ call.take ∧ call.take ≤ max 1 limits.pageTake := by
  intro n out
  have hle := length_upTo_le n L
  have hcount : (upTo n L).length ≤ 4294967295 := Nat.le_of_lt_succ (Nat.lt_of_le_of_lt hle hlength)
  obtain ⟨hrecords, hok, htile, htakes⟩ := hserver.run hcount limits now state
  refine ⟨hrecords, ?_, htile, htile.disjoint, htakes⟩
  intro hpages
  exact hok (Nat.lt_of_le_of_lt (Nat.div_le_div_right hle) hpages)

/-- Two full pages and, for want of a total, an empty one. -/
theorem run_slices_two_full_pages :
    let server : Server Unit Nat String (OffsetPage Nat) := fun _ call =>
      (⟨0, .ok { records := ([10, 20, 30, 40].drop call.position).take call.take }⟩, ())
    let out := run { pageTake := 2, maxPages := 3 } none byOffset 0 server 0 ()
    [10, 20, 30, 40].length < UInt32.size ∧ Slices [10, 20, 30, 40] server ∧
    out.calls.map Call.position = [0, 2, 4] ∧ ∃ r, out.result = .ok r ∧ r.records = [10, 20, 30, 40] := by
  intro server out
  have hserver : Slices [10, 20, 30, 40] server := fun _ call => ⟨_, rfl, rfl, by simp⟩
  obtain ⟨hrecords, hok, _⟩ := run_slices (by decide) hserver { pageTake := 2, maxPages := 3 } none 0 ()
  obtain ⟨r, hr⟩ := hok (by decide)
  exact ⟨by decide, hserver, by decide, r, hr, hrecords r hr⟩

end RecordSource.Paging
