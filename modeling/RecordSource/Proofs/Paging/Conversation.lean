import RecordSource.Paging.Run

/-!
What a run by cursors comes to, whatever the server answers. A conversation goes on without end, each call sent with
the cursor of the page before it; a run makes the calls of the conversation up to the first that ends it, and no more
than its limit of pages.
-/
namespace RecordSource.Paging
variable {σ ε ρ : Type}

/-! Counts of 32 bits are exact up to any target of 32 bits. -/

/-- The target has 32 bits. -/
def Fits32 (target : Option Nat) : Prop := ∀ n ∈ target, n ≤ 4294967295

theorem fits32 (target : Option UInt32) : Fits32 (target.map UInt32.toNat) := by
  intro n hn
  obtain ⟨t, _, rfl⟩ := Option.map_eq_some_iff.1 hn
  have ht := t.toNat_lt
  omega

theorem reached_counted {target : Option Nat} (h : Fits32 target) (collected : Nat) :
    reached target (counted collected) = reached target collected := by
  cases target with
  | none => rfl
  | some n =>
    have hn := h n rfl
    rw [reached, reached, counted, decide_eq_decide]
    omega

theorem pageTake_counted (limits : Limits) {target : Option Nat} (h : Fits32 target) (collected : Nat) :
    pageTake limits target (counted collected) = pageTake limits target collected := by
  cases target with
  | none => rfl
  | some n =>
    have hn := h n rfl
    simp only [pageTake, counted]
    omega

theorem reached_eq_false_iff {target : Option Nat} {collected : Nat} :
    reached target collected = false ↔ ∀ n ∈ target, collected < n := by
  cases target <;> simp [reached]

theorem reached_zero {target : Option Nat} (h : target ≠ some 0) : reached target 0 = false := by
  rw [reached_eq_false_iff]
  intro n hn
  have hpos : n ≠ 0 := by
    rintro rfl
    exact h hn
  exact Nat.pos_of_ne_zero hpos

/-- The page hands out no cursor to go on with. -/
def Page.isLast (p : Page ρ) : Bool := p.cursor.all fun c => c == ""

/-- As many records as are wanted. -/
def upTo (target : Option Nat) (records : List ρ) : List ρ :=
  match target with
  | none => records
  | some n => records.take n

/-- Where a client stands before a call: the pages it has, the cursor it goes on with, and the server's state. -/
structure Standing (σ ρ : Type) where
  pages : List (Page ρ) := []
  cursor : Option String := none
  pacer : Pacer
  now : Nat
  server : σ

namespace Standing

/-- Before the first call. -/
def start (limits : Limits) (now : Nat) (state : σ) : Standing σ ρ :=
  { pacer := Pacer.ofRate limits.perSecond, now, server := state }

def records (s : Standing σ ρ) : List ρ := s.pages.flatMap Page.records

/-- The latest total that a page stated. -/
def total (s : Standing σ ρ) : Option Nat := (s.pages.filterMap Page.total).getLast?

section
variable (limits : Limits) (target : Option Nat) (server : Server σ (Option String) ε (Page ρ)) (s : Standing σ ρ)

def call : Call (Option String) := ⟨s.pacer.start s.now, pageTake limits target s.records.length, s.cursor⟩

def reply : Reply ε (Page ρ) := (server s.server (s.call limits target)).1

/-- One call later. A call that fails brings no page. -/
def next : Standing σ ρ where
  pages := match (s.reply limits target server).outcome with
    | .ok page => s.pages ++ [page]
    | .error _ => s.pages
  cursor := match (s.reply limits target server).outcome with
    | .ok page => page.cursor
    | .error _ => s.cursor
  pacer := s.pacer.started (s.call limits target).start
  now := (s.call limits target).start + (s.reply limits target server).delay
  server := (server s.server (s.call limits target)).2

/-- The given number of calls later. -/
def after (s : Standing σ ρ) : Nat → Standing σ ρ
  | 0 => s
  | i + 1 => after (s.next limits target server) i

/-- The call is the last one: it fails, the records reach the target, or its page hands out no cursor or the one that
the call was sent with. -/
def ends : Bool :=
  match (s.reply limits target server).outcome with
  | .error _ => true
  | .ok page =>
    reached target (s.records ++ page.records).length || page.isLast || page.cursor == s.cursor

/-- What comes of a run whose last call, the `k`th, is the next one. -/
def result (k : Nat) : Except (Stop ε) (Retrieved ρ) :=
  match (s.reply limits target server).outcome with
  | .error e => .error (.failed e)
  | .ok page =>
    let records := s.records ++ page.records
    if reached target records.length || page.isLast then
      .ok ⟨upTo target records, ((s.pages ++ [page]).filterMap Page.total).getLast?⟩
    else .error (.endless k)

/-- The first calls of the conversation. -/
def calls (k : Nat) : List (Call (Option String)) :=
  (List.range k).map fun i => (s.after limits target server i).call limits target

/-- All that is called, and what comes of it, when at most `pages` pages are fetched after `done` others. -/
def conversation (done pages : Nat) : List (Call (Option String)) × Except (Stop ε) (Retrieved ρ) :=
  match (List.range pages).find? fun i => (s.after limits target server i).ends limits target server with
  | some i => (s.calls limits target server (i + 1), (s.after limits target server i).result limits target server
      (done + i + 1))
  | none => (s.calls limits target server pages, .error (.endless (done + pages)))

end

/-- The state of a run at this point. -/
def progress (s : Standing σ ρ) : Progress σ (Option String) :=
  ⟨s.cursor, s.records.length, s.total, s.pacer, s.now, s.server⟩

/-- What is retrieved later, put after what is there. -/
def complete (s : Standing σ ρ) (r : Retrieved ρ) : Retrieved ρ := { r with records := s.records ++ r.records }

variable {limits : Limits} {target : Option Nat} {server : Server σ (Option String) ε (Page ρ)} {s : Standing σ ρ}

theorem records_append (s : Standing σ ρ) (page : Page ρ) :
    (s.pages ++ [page]).flatMap Page.records = s.records ++ page.records := by
  simp [records]

theorem total_append (s : Standing σ ρ) (page : Page ρ) :
    ((s.pages ++ [page]).filterMap Page.total).getLast? = page.total.or s.total := by
  cases h : page.total <;> simp [total, h]

theorem next_records {page : Page ρ} (h : (s.reply limits target server).outcome = .ok page) :
    (s.next limits target server).records = s.records ++ page.records := by
  simp only [next, h, records]
  exact records_append s page

theorem next_progress {page : Page ρ} (h : (s.reply limits target server).outcome = .ok page) :
    (s.next limits target server).progress = ⟨page.cursor, s.records.length + page.records.length,
      page.total.or s.total, s.pacer.started (s.pacer.start s.now), (s.next limits target server).now,
      (s.next limits target server).server⟩ := by
  have htotal : (s.next limits target server).total = page.total.or s.total := by
    simp only [next, h, ← total_append]
    rfl
  rw [progress, next_records h, htotal, List.length_append]
  simp only [next, h, call]

/-- The last page brings the records up to the target. -/
theorem append_wanted (hopen : reached target s.records.length = false) (records : List ρ) :
    s.records ++ wanted target s.records.length records = upTo target (s.records ++ records) := by
  cases target with
  | none => rfl
  | some n =>
    have hn : s.records.length < n := reached_eq_false_iff.1 hopen n rfl
    have hall : s.records.take n = s.records := List.take_of_length_le (by omega)
    rw [upTo, wanted, List.take_append, hall]

theorem verdict_eq (hfits : Fits32 target) (call : Call (Option String)) (page : Page ρ) (collected : Nat)
    (total : Option Nat) :
    byCursor.verdict target collected total call page =
      if reached target collected || page.isLast then .over
      else if page.cursor == call.position then .stuck
      else .onward page.cursor := by
  obtain ⟨records, cursor, stated⟩ := page
  simp only [byCursor, reached_counted hfits, Page.isLast]
  cases reached target collected with
  | true => rfl
  | false =>
    cases cursor with
    | none => rfl
    | some c =>
      have hsame : (some c == call.position) = decide (call.position = some c) := by
        rw [Bool.eq_iff_iff, beq_iff_eq, decide_eq_true_eq, eq_comm]
      by_cases hc : c = "" <;> simp [hc, hsame]

/-- One step of a run. -/
theorem runFrom_succ (hfits : Fits32 target) (pages : Nat) :
    runFrom limits target byCursor server (pages + 1) s.progress =
      let call := s.call limits target
      let next := s.next limits target server
      match (s.reply limits target server).outcome with
      | .error e => ⟨[call], .error (.failed e), next.now, next.server⟩
      | .ok page =>
        if reached target (s.records ++ page.records).length || page.isLast then
          ⟨[call], .ok ⟨wanted target s.records.length page.records, page.total.or s.total⟩, next.now, next.server⟩
        else if page.cursor == s.cursor then
          ⟨[call], .error (.endless (limits.maxPages - pages)), next.now, next.server⟩
        else
          let rest := runFrom limits target byCursor server pages next.progress
          { rest with
            calls := call :: rest.calls
            result := rest.result.map fun r => { r with records := page.records ++ r.records } } := by
  have hcall : (⟨s.pacer.start s.now, pageTake limits target (counted s.records.length), s.cursor⟩ : Call _) =
      s.call limits target := by
    rw [pageTake_counted limits hfits]
    rfl
  have hnow : s.pacer.start s.now + (server s.server (s.call limits target)).1.delay =
      (s.next limits target server).now := rfl
  have hstate : (server s.server (s.call limits target)).2 = (s.next limits target server).server := rfl
  have hreply : (server s.server (s.call limits target)).1.outcome = (s.reply limits target server).outcome := rfl
  have hprogress : s.progress = ⟨s.cursor, s.records.length, s.total, s.pacer, s.now, s.server⟩ := rfl
  rw [hprogress, runFrom]
  simp only [hcall, hreply, hnow, hstate]
  cases houtcome : (s.reply limits target server).outcome with
  | error e => rfl
  | ok page =>
    have hrecords : byCursor.records page = page.records := rfl
    have htotal : byCursor.total page = page.total := rfl
    have hposition : (s.call limits target).position = s.cursor := rfl
    simp only [verdict_eq hfits, hrecords, htotal, hposition, next_progress houtcome, List.length_append]
    cases reached target (s.records.length + page.records.length) || page.isLast with
    | true => rfl
    | false => cases page.cursor == s.cursor <;> rfl

/-- A run at its last call. -/
theorem runFrom_of_ends (hfits : Fits32 target) (pages : Nat) (hopen : reached target s.records.length = false)
    (h : s.ends limits target server = true) :
    let out := runFrom limits target byCursor server (pages + 1) s.progress
    out.calls = [s.call limits target] ∧
    out.result.map s.complete = s.result limits target server (limits.maxPages - pages) := by
  intro out
  simp only [out, runFrom_succ hfits]
  unfold ends at h
  unfold result
  cases houtcome : (s.reply limits target server).outcome with
  | error e => exact ⟨rfl, rfl⟩
  | ok page =>
    simp only [houtcome] at h
    dsimp only
    cases hover : reached target (s.records ++ page.records).length || page.isLast with
    | true =>
      have hrecords := append_wanted hopen page.records
      refine ⟨rfl, ?_⟩
      rw [if_pos rfl, if_pos rfl, total_append, ← hrecords]
      rfl
    | false =>
      rw [hover, Bool.false_or] at h
      rw [h]
      exact ⟨rfl, rfl⟩

/-- A run at a call that is not the last. -/
theorem runFrom_of_not_ends (hfits : Fits32 target) (pages : Nat) (h : s.ends limits target server = false) :
    let out := runFrom limits target byCursor server (pages + 1) s.progress
    let rest := runFrom limits target byCursor server pages (s.next limits target server).progress
    out.calls = s.call limits target :: rest.calls ∧
    out.result.map s.complete = rest.result.map (s.next limits target server).complete ∧
    reached target (s.next limits target server).records.length = false := by
  intro out rest
  simp only [out, runFrom_succ hfits]
  unfold ends at h
  cases houtcome : (s.reply limits target server).outcome with
  | error e => simp [houtcome] at h
  | ok page =>
    simp only [houtcome, Bool.or_eq_false_iff] at h
    obtain ⟨⟨hopen, hlast⟩, hsame⟩ := h
    have hrecords := next_records houtcome
    simp only [hopen, hlast, hsame, Bool.or_self, Bool.false_eq_true, if_false, hrecords]
    have hcomplete : ∀ r : Retrieved ρ,
        s.complete { r with records := page.records ++ r.records } = (s.next limits target server).complete r := by
      intro r
      simp [complete, hrecords]
    refine ⟨rfl, ?_, trivial⟩
    simp only [rest]
    cases (runFrom limits target byCursor server pages (s.next limits target server).progress).result with
    | error e => rfl
    | ok r => exact congrArg Except.ok (hcomplete r)

theorem calls_succ (s : Standing σ ρ) (k : Nat) : s.calls limits target server (k + 1) =
    s.call limits target :: (s.next limits target server).calls limits target server k := by
  rw [calls, List.range_succ_eq_map, List.map_cons, List.map_map]
  rfl

theorem conversation_of_ends {done pages : Nat} (h : s.ends limits target server = true) :
    s.conversation limits target server done (pages + 1) =
      ([s.call limits target], s.result limits target server (done + 1)) := by
  rw [conversation, List.range_succ_eq_map, List.find?_cons]
  simp only [after, h]
  rfl

theorem conversation_of_not_ends {done pages : Nat} (h : s.ends limits target server = false) :
    s.conversation limits target server done (pages + 1) =
      let rest := (s.next limits target server).conversation limits target server (done + 1) pages
      (s.call limits target :: rest.1, rest.2) := by
  rw [conversation, conversation, List.range_succ_eq_map, List.find?_cons]
  simp only [after, h, List.find?_map, Function.comp_def, s.calls_succ]
  cases (List.range pages).find? fun i =>
    ((s.next limits target server).after limits target server i).ends limits target server with
  | none => simp [Nat.add_assoc, Nat.add_comm 1]
  | some i => simp [after, Nat.add_assoc, Nat.add_comm 1]

/-- A run from any point on is the conversation from there on. -/
theorem runFrom_eq_conversation (hfits : Fits32 target) {done pages : Nat} (hpages : done + pages = limits.maxPages)
    (hopen : reached target s.records.length = false) :
    let out := runFrom limits target byCursor server pages s.progress
    (out.calls, out.result.map s.complete) = s.conversation limits target server done pages := by
  induction pages generalizing done s with
  | zero =>
    intro out
    rw [conversation, hpages]
    rfl
  | succ pages ih =>
    intro out
    cases hends : s.ends limits target server with
    | true =>
      obtain ⟨hcalls, hresult⟩ := runFrom_of_ends hfits pages hopen hends
      have hdone : limits.maxPages - pages = done + 1 := by omega
      rw [conversation_of_ends hends, hcalls, hresult, hdone]
    | false =>
      obtain ⟨hcalls, hresult, hnext⟩ := runFrom_of_not_ends hfits pages hends
      rw [conversation_of_not_ends hends, hcalls, hresult, ← ih (by omega) hnext]

/-- A run that wants any records at all goes on from the start. -/
theorem run_eq_runFrom (h : target ≠ some 0) (now : Nat) (state : σ) :
    run limits target byCursor none server now state =
      runFrom limits target byCursor server limits.maxPages
        (start (ρ := ρ) limits now state).progress :=
  if_neg h

theorem map_complete_start (now : Nat) (state : σ) (x : Except (Stop ε) (Retrieved ρ)) :
    x.map (start limits now state).complete = x := by
  cases x <;> rfl

end Standing

/-- Against any server at all, a run by cursors makes the calls of the conversation up to the first that ends it, and
its result is what that call makes of the pages; if no call within the limit does, the run is endless. -/
theorem run_eq_conversation (limits : Limits) (target : Option UInt32)
    (server : Server σ (Option String) ε (Page ρ)) (now : Nat) (state : σ) :
    let n := target.map UInt32.toNat
    let out := run limits n byCursor none server now state
    (out.calls, out.result) =
      if n = some 0 then ([], .ok {})
      else (Standing.start limits now state).conversation limits n server 0 limits.maxPages := by
  intro n out
  by_cases h : n = some 0
  · rw [if_pos h]
    have hout : out = ⟨[], .ok {}, now, state⟩ := if_pos h
    rw [hout]
  · have hout : out = _ := Standing.run_eq_runFrom h now state
    have hopen : reached n (Standing.start (ρ := ρ) limits now state).records.length = false := reached_zero h
    rw [if_neg h, ← Standing.runFrom_eq_conversation (fits32 target) (Nat.zero_add _) hopen, ← hout,
      Standing.map_complete_start]

end RecordSource.Paging
