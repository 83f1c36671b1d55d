import Mathlib.Data.List.DropRight
import RecordSource.Text.Classes

/-!
Trimming leaves of a text the part between the blanks at its ends. A text that has none there is left as it is, and
blanks that are dropped at the front beforehand make no difference.
-/
namespace RecordSource.Text

/-- No blank at either end. -/
structure IsTrimmed (cs : List Char) : Prop where
  head : ∀ c ∈ cs.head?, isBlank c = false
  last : ∀ c ∈ cs.getLast?, isBlank c = false

/-- A text is another one with blanks around it. -/
structure Trims (whole cs : List Char) : Prop where
  trimmed : IsTrimmed cs
  around : ∃ lead trail, whole = lead ++ cs ++ trail ∧ allBlank lead = true ∧ allBlank trail = true

theorem trimEnd_eq_rdropWhile (cs : List Char) : trimEnd cs = cs.rdropWhile isBlank := by
  induction cs with
  | nil => rfl
  | cons c cs ih =>
    rw [trimEnd, ih, List.rdropWhile, List.rdropWhile, List.reverse_cons, List.dropWhile_append]
    cases hrest : cs.reverse.dropWhile isBlank with
    | nil => cases hc : isBlank c <;> simp [hc]
    | cons d ds => simp

theorem trim_eq_rdropWhile (cs : List Char) : trim cs = (cs.dropWhile isBlank).rdropWhile isBlank :=
  trimEnd_eq_rdropWhile _

theorem trim_dropWhile_isBlank (cs : List Char) : trim (cs.dropWhile isBlank) = trim cs := by
  rw [trim, List.dropWhile_idempotent, trim]

theorem isTrimmed_trim (cs : List Char) : IsTrimmed (trim cs) where
  head c hc := by
    rw [trim_eq_rdropWhile] at hc
    obtain ⟨rest, hrest⟩ := List.head?_eq_some_iff.1 hc
    -- What is left begins as the text does behind its first blanks.
    obtain ⟨trail, htrail⟩ := List.rdropWhile_prefix isBlank (cs.dropWhile isBlank)
    have hfirst := List.head?_dropWhile_not isBlank cs
    rw [← htrail, hrest] at hfirst
    simpa using hfirst
  last c hc := by
    rw [trim_eq_rdropWhile] at hc
    obtain ⟨hne, rfl⟩ := List.mem_getLast?_eq_getLast hc
    simpa using List.rdropWhile_last_not isBlank _ hne

theorem trims_trim (cs : List Char) : Trims cs (trim cs) where
  trimmed := isTrimmed_trim cs
  around := by
    refine ⟨cs.takeWhile isBlank, (cs.dropWhile isBlank).rtakeWhile isBlank, ?_, ?_, ?_⟩
    · rw [trim_eq_rdropWhile, List.append_assoc, List.rdropWhile_append_rtakeWhile, List.takeWhile_append_dropWhile]
    · exact List.all_eq_true.2 fun c hc => List.mem_takeWhile_imp hc
    · exact List.all_eq_true.2 fun c hc => List.mem_rtakeWhile_imp hc

theorem trim_eq_self_iff {cs : List Char} : trim cs = cs ↔ IsTrimmed cs := by
  constructor
  · intro h
    rw [← h]
    exact isTrimmed_trim cs
  · intro h
    have hfront : cs.dropWhile isBlank = cs := by
      cases cs with
      | nil => rfl
      | cons c cs => rw [List.dropWhile_cons_of_neg (by simp [h.head c rfl])]
    rw [trim_eq_rdropWhile, hfront, List.rdropWhile_eq_self_iff]
    intro hne
    simp [h.last _ (List.getLast?_eq_some_getLast hne)]

end RecordSource.Text
