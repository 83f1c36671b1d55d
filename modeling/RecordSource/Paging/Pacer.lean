/-!
Pacing of calls. Call starts lie at least one interval apart; the interval is kept in nanoseconds, while the clock
shows whole milliseconds and a wait ends at the first one not before its instant.
-/
namespace RecordSource.Paging

/-- The interval between call starts, and the earliest instant of the next, both in nanoseconds. -/
structure Pacer where
  interval : Nat
  earliest : Option Nat := none
  deriving DecidableEq, Repr

namespace Pacer

/-- A rate of zero counts as one call a second. -/
def ofRate (perSecond : Nat) : Pacer := { interval := 1000000000 / max perSecond 1 }

/-- The first whole millisecond not before an instant in nanoseconds. -/
def ceilMillis (nanos : Nat) : Nat := (nanos + 999999) / 1000000

/-- When a call may start that is ready at `now`. -/
def start (p : Pacer) (now : Nat) : Nat :=
  match p.earliest with
  | none => now
  | some t => max now (ceilMillis t)

/-- The pacer after a call that started at the given millisecond. -/
def started (p : Pacer) (start : Nat) : Pacer := { p with earliest := some (start * 1000000 + p.interval) }

@[simp] theorem start_ofRate (perSecond now : Nat) : (ofRate perSecond).start now = now := rfl

@[simp] theorem start_started (p : Pacer) (s now : Nat) :
    (p.started s).start now = max now (ceilMillis (s * 1000000 + p.interval)) := rfl

theorem le_start (p : Pacer) (now : Nat) : now ≤ p.start now := by
  unfold start
  split
  · exact Nat.le_refl _
  · exact Nat.le_max_left _ _

/-- The starts of calls that become ready after the given gaps, each gap counted from the last start. -/
def starts (p : Pacer) (now : Nat) : List Nat → List Nat
  | [] => []
  | gap :: gaps =>
    let s := p.start (now + gap)
    s :: starts (p.started s) s gaps

end Pacer
end RecordSource.Paging
