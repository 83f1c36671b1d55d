import Mathlib.Algebra.Group.Nat.Defs
import Mathlib.Data.List.Forall2
import RecordSource.Proofs.Text.Numeral
import RecordSource.Time.Stamp

/-!
Numbers in fields of a fixed width, with a mark behind each field. What is written into such fields is read out of them
again, and of two such texts the one with the smaller numbers, where they first differ, is the smaller text.
-/
namespace RecordSource.Time

theorem asciiNumber?_padded (width n : Nat) : Text.asciiNumber? (padded width n) = some n :=
  Text.asciiNumber?_numeral _ n

theorem length_padded {width n : Nat} (hwidth : 0 < width) (h : n < 10 ^ width) : (padded width n).length = width := by
  have hle : (Nat.toDigits 10 n).length ≤ width := (Nat.length_toDigits_le_iff (by decide) hwidth).2 h
  rw [padded, List.length_append, List.length_replicate]
  omega

/-- The widths of fields and the marks behind them. -/
abbrev Layout := List (Nat × Char)

namespace Layout

/-- Numbers that the fields have room for, one for each. -/
def Fits (l : Layout) (ns : List Nat) : Prop := List.Forall₂ (fun field n => 0 < field.1 ∧ n < 10 ^ field.1) l ns

/-- The number of characters in the fields and their marks. -/
def room : Layout → Nat
  | [] => 0
  | (width, _) :: l => width + 1 + room l

def write : Layout → List Nat → List Char
  | (width, mark) :: l, n :: ns => padded width n ++ mark :: write l ns
  | _, _ => []

/-- Reads a text that is made of the fields and nothing else. -/
def read? : Layout → List Char → Option (List Nat)
  | [], [] => some []
  | [], _ :: _ => none
  | (width, mark) :: l, cs =>
    if (cs.drop width).head? = some mark then
      (Text.asciiNumber? (cs.take width)).bind fun n => (read? l (cs.drop (width + 1))).map (n :: ·)
    else none

variable {l : Layout} {ns : List Nat}

theorem read?_write (h : l.Fits ns) : l.read? (l.write ns) = some ns := by
  induction h with
  | nil => rfl
  | @cons field n l ns hfield _ ih =>
    have hlength := length_padded hfield.1 hfield.2
    have hmark : (padded field.1 n ++ field.2 :: write l ns).drop (field.1 + 1) = write l ns := by
      rw [← List.drop_drop, List.drop_left' hlength, List.drop_one, List.tail_cons]
    rw [write, read?, List.drop_left' hlength, List.take_left' hlength, hmark, List.head?_cons, if_pos rfl,
      asciiNumber?_padded, Option.bind_some, ih, Option.map_some]

theorem length_write (h : l.Fits ns) : (l.write ns).length = l.room := by
  induction h with
  | nil => rfl
  | cons hfield _ ih =>
    rw [write, List.length_append, length_padded hfield.1 hfield.2, List.length_cons, ih, room]
    omega

theorem write_lt_write {ms : List Nat} (hms : l.Fits ms) (hns : l.Fits ns) (h : ms < ns) :
    l.write ms < l.write ns := by
  induction hms generalizing ns with
  | nil =>
    cases hns
    exact absurd h (List.lt_irrefl _)
  | @cons field m l ms hfield _ ih =>
    cases hns with
    | @cons _ n _ ns hfield' hns =>
      rw [write, write]
      rcases List.cons_lt_cons_iff.1 h with hlt | ⟨rfl, hlt⟩
      · have hlength : (padded field.1 m).length = (padded field.1 n).length := by
          rw [length_padded hfield.1 hfield.2, length_padded hfield'.1 hfield'.2]
        exact Text.append_lt_append_of_number_lt (asciiNumber?_padded _ m) (asciiNumber?_padded _ n) hlength hlt _ _
      · exact List.append_left_lt (List.cons_lt_cons_iff.2 (.inr ⟨rfl, ih hns hlt⟩))

end Layout
end RecordSource.Time
