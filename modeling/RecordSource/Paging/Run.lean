import RecordSource.Paging.Page
import RecordSource.Paging.Pacer

/-!
Retrieving records page by page from a server that answers as it likes. Pages are fetched one after another, paced;
after each one its style of paging decides whether the run is over, stuck, or goes on at the next position. A run
never fetches more pages than its limit.
-/
namespace RecordSource.Paging
variable {σ κ ε π ρ : Type}

/-- One call for a page: when it started, how many records it asked for and from which position. -/
structure Call (κ : Type) where
  start : Nat
  take : Nat
  position : κ
  deriving DecidableEq, Repr

/-- An answer and the milliseconds it took. -/
structure Reply (ε π : Type) where
  delay : Nat := 0
  outcome : Except ε π

/-- A server with a state of its own. -/
abbrev Server (σ κ ε π : Type) := σ → Call κ → Reply ε π × σ

/-- How a run goes on after a page. -/
inductive Verdict (κ : Type) where
  | over
  | stuck
  | onward (next : κ)
  deriving DecidableEq, Repr

/-- A style of paging: what a page holds, and the verdict on it. `collected` counts the records up to and with this
page, and `total` is the latest one stated. -/
structure Style (κ π ρ : Type) where
  records : π → List ρ
  total : π → Option Nat
  verdict : (target : Option Nat) → (collected : Nat) → (total : Option Nat) → Call κ → π → Verdict κ

/-- Why a run gave no records. -/
inductive Stop (ε : Type) where
  | failed (e : ε)
  | endless (pages : Nat)
  deriving DecidableEq, Repr

/-- All that a run did: its calls in order, its result, the time it ended and the server's state then. -/
structure Outcome (σ κ ε ρ : Type) where
  calls : List (Call κ)
  result : Except (Stop ε) (Retrieved ρ)
  finish : Nat
  server : σ

/-- Where a run stands between two pages. -/
structure Progress (σ κ : Type) where
  position : κ
  collected : Nat := 0
  total : Option Nat := none
  pacer : Pacer
  now : Nat
  server : σ

/-- The records that a call asks for: no more than are wanted still, and no more than fit in a page. -/
def pageTake (limits : Limits) (target : Option Nat) (collected : Nat) : Nat :=
  let most := max limits.pageTake 1
  match target with
  | none => most
  | some n => min most (n - collected)

/-- The records of the last page that are wanted. -/
def wanted (target : Option Nat) (collected : Nat) (records : List ρ) : List ρ :=
  match target with
  | none => records
  | some n => records.take (n - collected)

/-- Counts have 32 bits; more records than that count as the most. -/
def counted (records : Nat) : Nat := min records 4294967295

/-- Runs on for at most the given number of pages. -/
def runFrom (limits : Limits) (target : Option Nat) (style : Style κ π ρ) (server : Server σ κ ε π) :
    (pages : Nat) → Progress σ κ → Outcome σ κ ε ρ
  | 0, p => ⟨[], .error (.endless limits.maxPages), p.now, p.server⟩
  | pages + 1, p =>
    let call : Call κ := ⟨p.pacer.start p.now, pageTake limits target (counted p.collected), p.position⟩
    let (reply, state) := server p.server call
    let now := call.start + reply.delay
    match reply.outcome with
    | .error e => ⟨[call], .error (.failed e), now, state⟩
    | .ok page =>
      let records := style.records page
      let collected := p.collected + records.length
      let total := (style.total page).or p.total
      match style.verdict target collected total call page with
      | .over => ⟨[call], .ok ⟨wanted target p.collected records, total⟩, now, state⟩
      | .stuck => ⟨[call], .error (.endless (limits.maxPages - pages)), now, state⟩
      | .onward next =>
        let rest := runFrom limits target style server pages
          ⟨next, collected, total, p.pacer.started call.start, now, state⟩
        { rest with
          calls := call :: rest.calls
          result := rest.result.map fun r => { r with records := records ++ r.records } }

/-- Retrieves `target` records, or all there are without a target. A target of zero makes no call. -/
def run (limits : Limits) (target : Option Nat) (style : Style κ π ρ) (first : κ) (server : Server σ κ ε π)
    (now : Nat) (state : σ) : Outcome σ κ ε ρ :=
  if target = some 0 then ⟨[], .ok {}, now, state⟩
  else runFrom limits target style server limits.maxPages
    { position := first, pacer := Pacer.ofRate limits.perSecond, now, server := state }

def reached (target : Option Nat) (collected : Nat) : Bool :=
  match target with
  | none => false
  | some n => n ≤ collected

/-- Paging by cursors: over at the target or without a further cursor, stuck when the server hands out the cursor
that it was just sent. -/
def byCursor : Style (Option String) (Page ρ) ρ where
  records := Page.records
  total := Page.total
  verdict target collected _ call page :=
    if reached target (counted collected) then .over
    else match page.cursor with
      | none => .over
      | some c =>
        if c = "" then .over
        else if call.position = some c then .stuck
        else .onward (some c)

/-- Paging by offsets: over at the target, after a page shorter than asked for, or at the stated total. -/
def byOffset : Style Nat (OffsetPage ρ) ρ where
  records := OffsetPage.records
  total := OffsetPage.total
  verdict target collected total call page :=
    if reached target (counted collected) then .over
    else if counted page.records.length < call.take || reached total (counted collected) then .over
    else .onward (counted collected)

end RecordSource.Paging
