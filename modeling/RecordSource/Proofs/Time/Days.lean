import Mathlib.Order.Monotone.Basic
import Mathlib.Tactic.IntervalCases
import RecordSource.Time.Calendar

/-!
The days of the Gregorian calendar one after another. The day that is computed from a count is the one that is reached
by going on day by day, and of two days the later one has the greater count.
-/
namespace RecordSource.Time

/-- The days of a month. -/
def monthLength (leap : Bool) : Nat → Nat
  | 2 => if leap then 29 else 28
  | 4 | 6 | 9 | 11 => 30
  | _ => 31

def yearLength (leap : Bool) : Nat := if leap then 366 else 365

/-- The days of so many years, counted from the year 1. -/
def yearsLength (years : Nat) : Nat := years * 365 + years / 4 - years / 100 + years / 400

theorem isLeap_iff {year : Nat} : isLeap year = true ↔ year % 4 = 0 ∧ (year % 100 ≠ 0 ∨ year % 400 = 0) := by
  simp [isLeap]

theorem yearsLength_succ (years : Nat) :
    yearsLength (years + 1) = yearsLength years + yearLength (isLeap (years + 1)) := by
  have hcenturies : years / 100 ≤ years / 4 := Nat.div_le_div_left (by decide) (by decide)
  have hcentury : (years + 1) % 100 = 0 → (years + 1) % 4 = 0 := by omega
  have hcycle : (years + 1) % 400 = 0 → (years + 1) % 100 = 0 := by omega
  simp only [yearsLength, yearLength, isLeap_iff, Nat.succ_div, Nat.dvd_iff_mod_eq_zero]
  -- From here on only the order of the three rules counts.
  generalize (years + 1) % 4 = inSpan, (years + 1) % 100 = inCentury, (years + 1) % 400 = inCycle at *
  generalize years / 4 = spans, years / 100 = centuries, years / 400 = cycles at *
  split_ifs <;> omega

theorem yearsLength_monotone : Monotone yearsLength :=
  monotone_nat_of_le_succ fun years => by rw [yearsLength_succ]; exact Nat.le_add_right _ _

/-! A cycle of 400 years has centuries, these have spans of four years, and these have years. -/

section
variable (cycles : Nat) {centuries spans years : Nat} (hcenturies : centuries ≤ 3) (hspans : spans ≤ 24) (hyears : years ≤ 3)
include hcenturies hspans hyears

theorem yearsLength_parts : yearsLength (cycles * 400 + centuries * 100 + spans * 4 + years) =
    cycles * 146097 + centuries * 36524 + spans * 1461 + years * 365 := by
  have hspan : (cycles * 400 + centuries * 100 + spans * 4 + years) / 4 = cycles * 100 + centuries * 25 + spans := by
    omega
  have hcentury : (cycles * 400 + centuries * 100 + spans * 4 + years) / 100 = cycles * 4 + centuries := by omega
  have hcycle : (cycles * 400 + centuries * 100 + spans * 4 + years) / 400 = cycles := by omega
  rw [yearsLength, hspan, hcentury, hcycle]
  omega

theorem isLeap_parts : isLeap (cycles * 400 + centuries * 100 + spans * 4 + years + 1) = true ↔
    years = 3 ∧ (spans ≠ 24 ∨ centuries = 3) := by
  rw [isLeap_iff]
  omega
end

/-! The months of a year. -/

theorem daysBefore_succ (leap : Bool) {month : Nat} (h : 1 ≤ month ∧ month ≤ 12) :
    daysBefore leap (month + 1) = daysBefore leap month + monthLength leap month := by
  obtain ⟨hlo, hhi⟩ := h
  interval_cases month <;> cases leap <;> rfl

theorem monthLength_bounds (leap : Bool) (month : Nat) : 28 ≤ monthLength leap month ∧ monthLength leap month ≤ 31 := by
  unfold monthLength
  split
  · cases leap <;> decide
  all_goals decide

theorem daysBefore_monotone (leap : Bool) : Monotone (daysBefore leap) := by
  refine monotone_nat_of_le_succ fun month => ?_
  by_cases h : 1 ≤ month ∧ month ≤ 12
  · rw [daysBefore_succ leap h]
    exact Nat.le_add_right _ _
  · rcases Nat.eq_zero_or_pos month with rfl | hpos
    · exact Nat.le_refl _
    · obtain ⟨k, rfl⟩ := Nat.exists_eq_add_of_le' (show 13 ≤ month by omega)
      exact Nat.le_refl _

theorem daysBefore_one (leap : Bool) : daysBefore leap 1 = 0 := rfl

theorem daysBefore_thirteen (leap : Bool) : daysBefore leap 13 = yearLength leap := by cases leap <;> rfl

/-- Of two counts the one that is not greater falls into a span that does not begin later. -/
theorem le_of_starts {start : Nat → Nat} (hstart : Monotone start) {a b x y : Nat} (ha : start a ≤ x)
    (hb : y < start (b + 1)) (hxy : x ≤ y) : a ≤ b := by
  by_contra h
  have hnext : start (b + 1) ≤ start a := hstart (by omega)
  omega

namespace Date

/-- A day that the calendar has. -/
structure IsValid (d : Date) : Prop where
  year : 1 ≤ d.year
  month : 1 ≤ d.month ∧ d.month ≤ 12
  day : 1 ≤ d.day ∧ d.day ≤ monthLength (isLeap d.year) d.month

instance : DecidablePred IsValid := fun d =>
  decidable_of_iff
    (1 ≤ d.year ∧ (1 ≤ d.month ∧ d.month ≤ 12) ∧ 1 ≤ d.day ∧ d.day ≤ monthLength (isLeap d.year) d.month)
    ⟨fun h => ⟨h.1, h.2.1, h.2.2⟩, fun h => ⟨h.year, h.month, h.day⟩⟩

/-- The day after. -/
def next (d : Date) : Date :=
  if d.day < monthLength (isLeap d.year) d.month then { d with day := d.day + 1 }
  else if d.month < 12 then ⟨d.year, d.month + 1, 1⟩
  else ⟨d.year + 1, 1, 1⟩

theorem toDays_eq (d : Date) :
    d.toDays = yearsLength (d.year - 1) + daysBefore (isLeap d.year) d.month + (d.day - 1) := rfl

section
variable {d e : Date}

theorem IsValid.next (h : d.IsValid) : d.next.IsValid := by
  have hlength : ∀ leap month, 1 ≤ monthLength leap month := fun leap month =>
    Nat.le_trans (by decide) (monthLength_bounds leap month).1
  unfold Date.next
  split
  · next hday => exact ⟨h.year, h.month, Nat.le_add_left 1 _, hday⟩
  · split
    · next hmonth => exact ⟨h.year, ⟨Nat.le_add_left 1 _, hmonth⟩, Nat.le_refl 1, hlength _ _⟩
    · exact ⟨Nat.le_add_left 1 _, ⟨Nat.le_refl 1, Nat.le_add_left 1 11⟩, Nat.le_refl 1, hlength _ _⟩

theorem IsValid.toDays_next (h : d.IsValid) : d.next.toDays = d.toDays + 1 := by
  have hmonth := daysBefore_succ (isLeap d.year) h.month
  have hday := h.day
  unfold Date.next
  split
  · simp only [toDays_eq]
    omega
  · next hlast =>
    split
    · simp only [toDays_eq, hmonth]
      omega
    · next hdecember =>
      -- The last day of a year, before the first one of the next.
      have hdecember : d.month = 12 := by
        have := h.month
        omega
      have hyears := yearsLength_succ (d.year - 1)
      rw [Nat.sub_add_cancel h.year] at hyears
      rw [hdecember] at hmonth hday hlast
      rw [daysBefore_thirteen] at hmonth
      simp only [toDays_eq, hdecember, daysBefore_one, Nat.add_sub_cancel, hyears]
      omega

theorem IsValid.iterate (h : d.IsValid) (days : Nat) : (Date.next^[days] d).IsValid := by
  induction days with
  | zero => exact h
  | succ days ih => exact Function.iterate_succ_apply' Date.next days d ▸ ih.next

theorem IsValid.toDays_iterate (h : d.IsValid) (days : Nat) : (Date.next^[days] d).toDays = d.toDays + days := by
  induction days with
  | zero => rfl
  | succ days ih => rw [Function.iterate_succ_apply', (h.iterate days).toDays_next, ih, Nat.add_assoc]

/-- The days of a year come before those of the next one. -/
theorem IsValid.toDays_lt_yearsLength (h : d.IsValid) : d.toDays < yearsLength d.year := by
  have hmonth := daysBefore_succ (isLeap d.year) h.month
  have hyears := yearsLength_succ (d.year - 1)
  rw [Nat.sub_add_cancel h.year, ← daysBefore_thirteen] at hyears
  have hyear := daysBefore_monotone (isLeap d.year) (show d.month + 1 ≤ 13 by have := h.month; omega)
  have hday := h.day
  rw [toDays_eq]
  omega

theorem IsValid.year_le (he : e.IsValid) (h : d.toDays ≤ e.toDays) : d.year ≤ e.year := by
  have hlast := he.toDays_lt_yearsLength
  rw [← Nat.sub_add_cancel he.year] at hlast
  have hle : d.year - 1 ≤ e.year - 1 :=
    le_of_starts yearsLength_monotone (by rw [toDays_eq]; omega) hlast h
  have := he.year
  omega

theorem IsValid.month_le (he : e.IsValid) (hyear : d.year = e.year) (h : d.toDays ≤ e.toDays) : d.month ≤ e.month := by
  have hmonth := daysBefore_succ (isLeap e.year) he.month
  have hday := he.day
  rw [toDays_eq, toDays_eq, hyear] at h
  exact le_of_starts (daysBefore_monotone (isLeap e.year)) (Nat.le_add_right _ (d.day - 1))
    (y := daysBefore (isLeap e.year) e.month + (e.day - 1)) (by omega) (by omega)

/-- Of two days the one with the smaller count has the smaller year, month or day, the first that differs. -/
theorem IsValid.lt_of_toDays_lt (he : e.IsValid) (h : d.toDays < e.toDays) :
    d.year < e.year ∨ d.year = e.year ∧ (d.month < e.month ∨ d.month = e.month ∧ d.day < e.day) := by
  rcases Nat.lt_or_eq_of_le (he.year_le (Nat.le_of_lt h)) with hyear | hyear
  · exact .inl hyear
  · refine .inr ⟨hyear, ?_⟩
    rcases Nat.lt_or_eq_of_le (he.month_le hyear (Nat.le_of_lt h)) with hmonth | hmonth
    · exact .inl hmonth
    · refine .inr ⟨hmonth, ?_⟩
      rw [toDays_eq, toDays_eq, hyear, hmonth] at h
      omega

theorem IsValid.toDays_injective (hd : d.IsValid) (he : e.IsValid) (h : d.toDays = e.toDays) : d = e := by
  have hyear : d.year = e.year := Nat.le_antisymm (he.year_le h.le) (hd.year_le h.ge)
  have hmonth : d.month = e.month := Nat.le_antisymm (he.month_le hyear h.le) (hd.month_le hyear.symm h.ge)
  have hday : d.day = e.day := by
    have hfirst := hd.day
    have hlast := he.day
    rw [toDays_eq, toDays_eq, hyear, hmonth] at h
    omega
  cases d
  cases e
  simp_all

end

/-- The month in which a day of the year falls begins on this day or before, and the next one begins after it. -/
theorem monthOf_spec (leap : Bool) {dayOfYear last : Nat} (hfirst : 1 ≤ last)
    (hlast : dayOfYear < daysBefore leap (last + 1)) :
    1 ≤ monthOf leap dayOfYear last ∧ monthOf leap dayOfYear last ≤ last ∧
      daysBefore leap (monthOf leap dayOfYear last) ≤ dayOfYear ∧
      dayOfYear < daysBefore leap (monthOf leap dayOfYear last + 1) := by
  induction last with
  | zero => exact absurd hfirst (by decide)
  | succ last ih =>
    rw [monthOf]
    split
    · next h => exact ⟨hfirst, Nat.le_refl _, h, hlast⟩
    · next h =>
      have hpos : 1 ≤ last := by
        rcases Nat.eq_zero_or_pos last with rfl | hpos
        · exact absurd (Nat.zero_le _) h
        · exact hpos
      obtain ⟨hlo, hhi, hmonth⟩ := ih hpos (Nat.lt_of_not_le h)
      exact ⟨hlo, Nat.le_succ_of_le hhi, hmonth⟩

/-- A count of days as so many whole years and a day of the next one. -/
theorem ofDays_spec (days : Nat) : ∃ years dayOfYear,
    days = yearsLength years + dayOfYear ∧ dayOfYear < yearLength (isLeap (years + 1)) ∧
      ofDays days =
        let month := monthOf (isLeap (years + 1)) dayOfYear 12
        ⟨years + 1, month, dayOfYear - daysBefore (isLeap (years + 1)) month + 1⟩ := by
  have hcenturies : min (days % 146097 / 36524) 3 ≤ 3 := Nat.min_le_right _ _
  have hspans : (days % 146097 - min (days % 146097 / 36524) 3 * 36524) / 1461 ≤ 24 := by omega
  have hyears : min ((days % 146097 - min (days % 146097 / 36524) 3 * 36524) % 1461 / 365) 3 ≤ 3 :=
    Nat.min_le_right _ _
  refine ⟨_, _, ?_, ?_, rfl⟩
  · rw [yearsLength_parts _ hcenturies hspans hyears]
    omega
  · have hleap := isLeap_parts (days / 146097) hcenturies hspans hyears
    unfold yearLength
    split
    · omega
    · next h =>
      rw [hleap] at h
      omega

theorem isValid_ofDays (days : Nat) : (ofDays days).IsValid := by
  obtain ⟨years, dayOfYear, _, hyear, hdate⟩ := ofDays_spec days
  rw [← daysBefore_thirteen] at hyear
  obtain ⟨hlo, hhi, hfirst, hlast⟩ := monthOf_spec _ (by decide) hyear
  rw [daysBefore_succ _ ⟨hlo, hhi⟩] at hlast
  rw [hdate]
  exact ⟨Nat.le_add_left 1 _, ⟨hlo, hhi⟩, Nat.le_add_left 1 _, by simp only; omega⟩

theorem toDays_ofDays (days : Nat) : (ofDays days).toDays = days := by
  obtain ⟨years, dayOfYear, hdays, hyear, hdate⟩ := ofDays_spec days
  rw [← daysBefore_thirteen] at hyear
  obtain ⟨_, _, hfirst, _⟩ := monthOf_spec _ (by decide) hyear
  rw [hdate, toDays_eq]
  simp only [Nat.add_sub_cancel]
  omega

/-- The day of a later count is reached by going on day by day. -/
theorem ofDays_add (start days : Nat) : ofDays (start + days) = Date.next^[days] (ofDays start) := by
  have hstart := isValid_ofDays start
  refine (isValid_ofDays (start + days)).toDays_injective (hstart.iterate days) ?_
  rw [toDays_ofDays, hstart.toDays_iterate, toDays_ofDays]

theorem year_ofDays_le_iff {days years : Nat} : (ofDays days).year ≤ years ↔ days < yearsLength years := by
  have hvalid := isValid_ofDays days
  have hlast := hvalid.toDays_lt_yearsLength
  have hfirst : yearsLength ((ofDays days).year - 1) ≤ (ofDays days).toDays := by
    rw [toDays_eq, Nat.add_assoc]
    exact Nat.le_add_right _ _
  rw [toDays_ofDays] at hlast hfirst
  constructor
  · intro h
    exact Nat.lt_of_lt_of_le hlast (yearsLength_monotone h)
  · intro h
    by_contra hlater
    have hle : yearsLength years ≤ yearsLength ((ofDays days).year - 1) := yearsLength_monotone (by omega)
    omega

end Date
end RecordSource.Time
