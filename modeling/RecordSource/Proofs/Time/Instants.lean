import RecordSource.Proofs.Time.Days
import RecordSource.Proofs.Time.Fields

/-!
Instants and their texts. Up to the end of the year 9999 the text of an instant has 24 characters and is read as the
moment of the calendar that lies so many milliseconds after the beginning of 1970, and of two instants the earlier one
has the smaller text. An instant behind the last year of the calendar has the text of 1970.
-/
namespace RecordSource.Time

/-- A day, and a time of this day to the millisecond. -/
structure Moment where
  date : Date
  hour : Nat
  minute : Nat
  second : Nat
  milli : Nat
  deriving DecidableEq, Repr

namespace Moment

structure IsValid (m : Moment) : Prop where
  date : m.date.IsValid
  hour : m.hour < 24
  minute : m.minute < 60
  second : m.second < 60
  milli : m.milli < 1000

instance : DecidablePred IsValid := fun m =>
  decidable_of_iff (m.date.IsValid ∧ m.hour < 24 ∧ m.minute < 60 ∧ m.second < 60 ∧ m.milli < 1000)
    ⟨fun h => ⟨h.1, h.2.1, h.2.2.1, h.2.2.2.1, h.2.2.2.2⟩, fun h => ⟨h.date, h.hour, h.minute, h.second, h.milli⟩⟩

/-- The milliseconds since the beginning of the day. -/
def timeOfDay (m : Moment) : Nat := ((m.hour * 60 + m.minute) * 60 + m.second) * 1000 + m.milli

/-- So many milliseconds after the beginning of a day, counted day by day. -/
def IsAfter (start : Date) (millis : Nat) (m : Moment) : Prop :=
  ∃ days, m.date = Date.next^[days] start ∧ millis = days * 86400000 + m.timeOfDay

def fields (m : Moment) : List Nat :=
  [m.date.year, m.date.month, m.date.day, m.hour, m.minute, m.second, m.milli]

def ofFields? : List Nat → Option Moment
  | [year, month, day, hour, minute, second, milli] => some ⟨⟨year, month, day⟩, hour, minute, second, milli⟩
  | _ => none

/-- The layout `YYYY-MM-DDTHH:MM:SS.mmmZ`. -/
def layout : Layout := [(4, '-'), (2, '-'), (2, 'T'), (2, ':'), (2, ':'), (2, '.'), (3, 'Z')]

/-- Reads a text of this layout that names a moment of the calendar. -/
def read? (text : String) : Option Moment :=
  ((layout.read? text.toList).bind ofFields?).filter fun m => m.IsValid

example : read? "2024-02-29T23:59:59.000Z" = some ⟨⟨2024, 2, 29⟩, 23, 59, 59, 0⟩ := by decide

example : read? "2023-02-29T23:59:59.000Z" = none := by decide

/-- The milliseconds since the beginning of 1970 of the moment that a text names. -/
def millis? (text : String) : Option Nat :=
  (read? text).map fun m => (m.date.toDays - epochDays) * 86400000 + m.timeOfDay

def ofMillis (millis : Nat) : Moment where
  date := Date.ofDays (epochDays + millis / 86400000)
  hour := millis % 86400000 / 3600000
  minute := millis % 86400000 / 60000 % 60
  second := millis % 86400000 / 1000 % 60
  milli := millis % 86400000 % 1000

theorem isValid_ofMillis (millis : Nat) : (ofMillis millis).IsValid where
  date := Date.isValid_ofDays _
  hour := by simp only [ofMillis]; omega
  minute := Nat.mod_lt _ (by decide)
  second := Nat.mod_lt _ (by decide)
  milli := Nat.mod_lt _ (by decide)

theorem timeOfDay_ofMillis (millis : Nat) : (ofMillis millis).timeOfDay = millis % 86400000 := by
  simp only [timeOfDay, ofMillis]
  omega

theorem isAfter_ofMillis (millis : Nat) : (ofMillis millis).IsAfter ⟨1970, 1, 1⟩ millis := by
  refine ⟨millis / 86400000, Date.ofDays_add epochDays _, ?_⟩
  rw [timeOfDay_ofMillis]
  omega

theorem IsAfter.unique {start : Date} {m : Moment} {j k : Nat} (hj : m.IsAfter start j) (hstart : start.IsValid)
    (hk : m.IsAfter start k) : j = k := by
  obtain ⟨days, hdate, rfl⟩ := hj
  obtain ⟨days', hdate', rfl⟩ := hk
  have hdays : start.toDays + days = start.toDays + days' := by
    rw [← hstart.toDays_iterate, ← hstart.toDays_iterate, ← hdate, ← hdate']
  rw [Nat.add_left_cancel hdays]

/-- The hours, minutes, seconds and milliseconds of a later time are greater where they first differ. -/
theorem time_lt_time {s t : Nat} (h : s < t) :
    s / 3600000 < t / 3600000 ∨ s / 3600000 = t / 3600000 ∧
      (s / 60000 % 60 < t / 60000 % 60 ∨ s / 60000 % 60 = t / 60000 % 60 ∧
        (s / 1000 % 60 < t / 1000 % 60 ∨ s / 1000 % 60 = t / 1000 % 60 ∧ s % 1000 < t % 1000)) := by
  omega

theorem fields_lt_fields {a b : Nat} (h : a < b) : (ofMillis a).fields < (ofMillis b).fields := by
  simp only [fields, List.cons_lt_cons_iff]
  rcases Nat.lt_or_eq_of_le (Nat.div_le_div_right (c := 86400000) (Nat.le_of_lt h)) with hday | hday
  · have hdays : (ofMillis a).date.toDays < (ofMillis b).date.toDays := by
      simp only [ofMillis, Date.toDays_ofDays]
      omega
    rcases (isValid_ofMillis b).date.lt_of_toDays_lt hdays with hyear | ⟨hyear, hmonth | ⟨hmonth, hday⟩⟩
    · exact .inl hyear
    · exact .inr ⟨hyear, .inl hmonth⟩
    · exact .inr ⟨hyear, .inr ⟨hmonth, .inl hday⟩⟩
  · have hdate : (ofMillis a).date = (ofMillis b).date := by simp only [ofMillis, hday]
    refine .inr ⟨by rw [hdate], .inr ⟨by rw [hdate], .inr ⟨by rw [hdate], ?_⟩⟩⟩
    rcases time_lt_time (show a % 86400000 < b % 86400000 by omega) with
      hhour | ⟨hhour, hminute | ⟨hminute, hsecond | ⟨hsecond, hmilli⟩⟩⟩
    · exact .inl hhour
    · exact .inr ⟨hhour, .inl hminute⟩
    · exact .inr ⟨hhour, .inr ⟨hminute, .inl hsecond⟩⟩
    · exact .inr ⟨hhour, .inr ⟨hminute, .inr ⟨hsecond, .inl hmilli⟩⟩⟩

theorem IsValid.fits {m : Moment} (h : m.IsValid) (hyear : m.date.year ≤ 9999) : layout.Fits m.fields := by
  have hmonth := h.date.month
  have hday := h.date.day
  have hlength := (monthLength_bounds (isLeap m.date.year) m.date.month).2
  obtain ⟨_, hhour, hminute, hsecond, hmilli⟩ := h
  simp only [layout, fields, Layout.Fits, List.forall₂_cons, List.Forall₂.nil, and_true]
  omega

theorem write_layout (year month day hour minute second milli : Nat) :
    layout.write [year, month, day, hour, minute, second, milli] =
      padded 4 year ++ '-' :: padded 2 month ++ '-' :: padded 2 day ++ 'T' :: padded 2 hour ++ ':' :: padded 2 minute ++
        ':' :: padded 2 second ++ '.' :: padded 3 milli ++ ['Z'] := by
  simp only [layout, Layout.write, List.append_assoc, List.cons_append]

theorem stampText_eq {millis : Nat} (h : (ofMillis millis).date.year ≤ 9999) :
    stampText millis = layout.write (ofMillis millis).fields := by
  have hyear : yearText (ofMillis millis).date.year = padded 4 (ofMillis millis).date.year := by
    rw [yearText, if_neg (Nat.not_lt_of_le h)]
  rw [fields, write_layout, ← hyear]
  rfl

/-- What is written of a valid moment is read as this moment. -/
theorem IsValid.read?_write {m : Moment} (h : m.IsValid) (hyear : m.date.year ≤ 9999) :
    read? (String.ofList (layout.write m.fields)) = some m := by
  have hfields : ofFields? m.fields = some m := rfl
  rw [read?, String.toList_ofList, Layout.read?_write (h.fits hyear), Option.bind_some, hfields]
  exact Option.filter_some_pos (decide_eq_true h)

end Moment

/-! The range of the calendar. -/

/-- The last millisecond of the year 9999. -/
def lastPlainMillis : Nat := 253402300799999

theorem year_ofMillis_le_9999 {millis : Nat} (h : millis ≤ lastPlainMillis) :
    (Moment.ofMillis millis).date.year ≤ 9999 := by
  have hyears : yearsLength 9999 = 3652059 := by decide
  rw [lastPlainMillis] at h
  rw [Moment.ofMillis, Date.year_ofDays_le_iff, hyears, epochDays]
  omega

theorem year_le_lastYear_iff {millis : Nat} :
    (Date.ofDays (epochDays + millis / 86400000)).year ≤ lastYear ↔ millis ≤ lastMillis := by
  have hyears : yearsLength lastYear = 95745399 := by decide
  rw [Date.year_ofDays_le_iff, hyears, epochDays, lastMillis]
  omega

theorem stamp_of_le {millis : Nat} (h : millis ≤ lastMillis) : stamp millis = String.ofList (stampText millis) := by
  have hsigned : signed millis = millis := by
    rw [lastMillis] at h
    rw [signed]
    omega
  rw [stamp, hsigned, inCalendar?, if_pos (year_le_lastYear_iff.2 h), Option.getD_some]

theorem stamp_of_lt {millis : Nat} (h : lastMillis < millis) : stamp millis = String.ofList (stampText 0) := by
  have hsigned : ¬signed millis ≤ lastMillis := by
    rw [lastMillis] at h ⊢
    rw [signed]
    omega
  rw [stamp, inCalendar?, if_neg (mt year_le_lastYear_iff.1 hsigned), Option.getD_none]

theorem stamp_eq_write {millis : Nat} (h : millis ≤ lastPlainMillis) :
    stamp millis = String.ofList (Moment.layout.write (Moment.ofMillis millis).fields) := by
  have hlast : millis ≤ lastMillis := Nat.le_trans h (by decide)
  rw [stamp_of_le hlast, Moment.stampText_eq (year_ofMillis_le_9999 h)]

/-- Up to the end of the year 9999 the text of an instant has 24 characters and names a day of the calendar and a time
of this day that lie exactly so many milliseconds after the beginning of 1970; read as such, it gives the instant back.
Of two such instants the earlier one has the smaller text. An instant behind the last year of the calendar, however far,
has the text of the beginning of 1970. -/
theorem stamp_names_instant :
    (∀ millis ≤ lastPlainMillis, (stamp millis).length = 24 ∧ Moment.millis? (stamp millis) = some millis ∧
      ∃ m : Moment, Moment.read? (stamp millis) = some m ∧ m.IsValid ∧
        ∀ k, m.IsAfter ⟨1970, 1, 1⟩ k ↔ k = millis) ∧
    (∀ a b, a < b → b ≤ lastPlainMillis → stamp a < stamp b) ∧
    ∀ millis, lastMillis < millis → stamp millis = "1970-01-01T00:00:00.000Z" := by
  refine ⟨fun millis h => ?_, fun a b hab hb => ?_, fun millis h => ?_⟩
  · have hvalid := Moment.isValid_ofMillis millis
    have hyear := year_ofMillis_le_9999 h
    have hread := hvalid.read?_write hyear
    rw [← stamp_eq_write h] at hread
    refine ⟨?_, ?_, _, hread, hvalid, fun k => ⟨fun hk => ?_, ?_⟩⟩
    · rw [stamp_eq_write h, String.length_ofList, Layout.length_write (hvalid.fits hyear)]
      rfl
    · rw [Moment.millis?, hread, Option.map_some, Moment.timeOfDay_ofMillis, Moment.ofMillis, Date.toDays_ofDays,
        Nat.add_sub_cancel_left, Nat.div_add_mod']
    · exact hk.unique (by decide) (Moment.isAfter_ofMillis millis)
    · rintro rfl
      exact Moment.isAfter_ofMillis k
  · have ha : a ≤ lastPlainMillis := Nat.le_trans (Nat.le_of_lt hab) hb
    rw [stamp_eq_write ha, stamp_eq_write hb]
    change (String.ofList _).toList < (String.ofList _).toList
    rw [String.toList_ofList, String.toList_ofList]
    exact Layout.write_lt_write ((Moment.isValid_ofMillis a).fits (year_ofMillis_le_9999 ha))
      ((Moment.isValid_ofMillis b).fits (year_ofMillis_le_9999 hb)) (Moment.fields_lt_fields hab)
  · rw [stamp_of_lt h]
    decide

/-- A leap day, the last second of the year 9999 and the largest number of 64 bits. -/
theorem stamp_names_instant_leap_day :
    (1709164800123 ≤ lastPlainMillis ∧ (stamp 1709164800123).length = 24 ∧
      Moment.millis? (stamp 1709164800123) = some 1709164800123 ∧
      ∃ m : Moment, Moment.read? (stamp 1709164800123) = some m ∧ m.IsValid ∧
        ∀ k, m.IsAfter ⟨1970, 1, 1⟩ k ↔ k = 1709164800123) ∧
    (253402300798999 < 253402300799999 ∧ 253402300799999 ≤ lastPlainMillis ∧
      stamp 253402300798999 < stamp 253402300799999) ∧
    (lastMillis < 18446744073709551615 ∧ stamp 18446744073709551615 = "1970-01-01T00:00:00.000Z") :=
  ⟨⟨by decide, stamp_names_instant.1 _ (by decide)⟩,
    ⟨by decide, by decide, stamp_names_instant.2.1 _ _ (by decide) (by decide)⟩,
    ⟨by decide, stamp_names_instant.2.2 _ (by decide)⟩⟩

end RecordSource.Time
