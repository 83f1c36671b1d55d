import Mathlib.Data.List.TakeWhile
import RecordSource.Proofs.Json.Grammar
import RecordSource.Proofs.Text.Numeral

/-!
Numbers as JSON writes them. A number is read part by part, each part as far as it goes, so nothing that can follow a
number changes what it denotes. What is read is a numeral, and every numeral is read, its real numbers rounded as they
are when the numeral stands alone.
-/
namespace RecordSource.Json.Token
variable {cs rest : List Char}

/-- No digit comes first. -/
def EndsDigits (cs : List Char) : Prop := ∀ c ∈ cs.head?, c.isDigit = false

/-- Nothing that could belong to a number comes first. -/
def EndsNumber (cs : List Char) : Prop := ∀ c ∈ cs.head?, c.isDigit = false ∧ c ∉ ['.', 'e', 'E']

theorem EndsNumber.endsDigits (h : EndsNumber cs) : EndsDigits cs := fun c hc => (h c hc).1

theorem endsNumber_nil : EndsNumber [] := by simp [EndsNumber]

theorem digits_append (cs : List Char) : (digits cs).1 ++ (digits cs).2 = cs := List.takeWhile_append_dropWhile

theorem isDigits_digits (h : (digits cs).1.isEmpty = false) : IsDigits (digits cs).1 :=
  ⟨by simpa using h, fun _ hc => List.mem_takeWhile_imp hc⟩

theorem digits_of_isDigits {ds : List Char} (hds : IsDigits ds) (hrest : EndsDigits rest) :
    digits (ds ++ rest) = (ds, rest) := by
  have hnone : rest.takeWhile Char.isDigit = [] ∧ rest.dropWhile Char.isDigit = rest := by
    cases rest with
    | nil => exact ⟨rfl, rfl⟩
    | cons c cs =>
      have hc := hrest c rfl
      simp [hc]
  rw [digits, List.takeWhile_append_of_pos hds.2, List.dropWhile_append_of_pos hds.2, hnone.1, hnone.2, List.append_nil]

/-! The fraction. -/

theorem fraction?_spec {fds : List Char} (h : fraction? cs = some (fds, rest)) :
    ∃ fs, cs = fs ++ rest ∧ IsFraction fs ∧ fs.drop 1 = fds := by
  unfold fraction? at h
  split at h
  · next cs =>
    split at h
    · cases h
    · next hne =>
      have hsplit := digits_append cs
      have hdigits := isDigits_digits (by simpa using hne)
      rw [Option.some.inj h] at hsplit hdigits
      exact ⟨'.' :: fds, by rw [← hsplit, List.cons_append], .inr ⟨fds, hdigits, rfl⟩, rfl⟩
  · simp only [Option.some.injEq, Prod.mk.injEq] at h
    obtain ⟨rfl, rfl⟩ := h
    exact ⟨[], rfl, .inl rfl, rfl⟩

theorem fraction?_append {fs : List Char} (hfs : IsFraction fs) (hrest : EndsDigits rest)
    (hpoint : rest.head? ≠ some '.') : fraction? (fs ++ rest) = some (fs.drop 1, rest) := by
  rcases hfs with rfl | ⟨ds, hds, rfl⟩
  · rw [List.nil_append]
    unfold fraction?
    split
    · exact absurd rfl hpoint
    · rfl
  · simp [fraction?, digits_of_isDigits hds hrest, hds.1]

theorem drop_eq_nil_iff {fs : List Char} (hfs : IsFraction fs) : fs.drop 1 = [] ↔ fs = [] := by
  rcases hfs with rfl | ⟨ds, hds, rfl⟩
  · simp
  · simp [hds.1]

/-! The exponent. -/

/-- The power of ten that an exponent stands for. -/
def powerOf (es : List Char) : Option Int := (exponent? es).bind Prod.fst

theorem exponent?_digits {e : Char} {sign ds : List Char} (he : e = 'e' ∨ e = 'E')
    (hsign : sign = [] ∨ sign = ['+'] ∨ sign = ['-']) (hds : IsDigits ds) (hrest : EndsDigits rest) :
    exponent? (e :: (sign ++ ds) ++ rest) =
      some (some ((if sign = ['-'] then -1 else 1) * (value ds : Int)), rest) := by
  have hdigits := digits_of_isDigits hds hrest
  have hne : ds.isEmpty = false := by simpa using hds.1
  rcases hsign with rfl | rfl | rfl
  · obtain ⟨d, ds, rfl⟩ := List.exists_cons_of_ne_nil hds.1
    have hd := hds.2 d List.mem_cons_self
    have hminus : d ≠ '-' := by
      rintro rfl
      exact absurd hd (by decide)
    have hplus : d ≠ '+' := by
      rintro rfl
      exact absurd hd (by decide)
    rw [List.cons_append] at hdigits
    simp [exponent?, he, hminus, hplus, hdigits]
  · simp [exponent?, he, hdigits, hne]
  · simp [exponent?, he, hdigits, hne]

theorem powerOf_digits {e : Char} {sign ds : List Char} (he : e = 'e' ∨ e = 'E')
    (hsign : sign = [] ∨ sign = ['+'] ∨ sign = ['-']) (hds : IsDigits ds) :
    powerOf (e :: (sign ++ ds)) = some ((if sign = ['-'] then -1 else 1) * (value ds : Int)) := by
  have hread := exponent?_digits he hsign hds endsNumber_nil.endsDigits
  rw [List.append_nil] at hread
  rw [powerOf, hread]
  rfl

theorem exponent?_append {es : List Char} (hes : IsExponent es) (hrest : EndsNumber rest) :
    exponent? (es ++ rest) = some (powerOf es, rest) := by
  rcases hes with rfl | ⟨e, sign, ds, he, hsign, hds, rfl⟩
  · rw [List.nil_append]
    unfold exponent?
    split
    · rfl
    · next c cs =>
      have hc := (hrest c rfl).2
      rw [if_neg (by rintro (rfl | rfl) <;> exact hc (by decide))]
      rfl
  · rw [exponent?_digits he hsign hds hrest.endsDigits, powerOf_digits he hsign hds]

theorem exponent?_spec {power : Option Int} (h : exponent? cs = some (power, rest)) :
    ∃ es, cs = es ++ rest ∧ IsExponent es ∧ powerOf es = power := by
  unfold exponent? at h
  split at h
  · cases h
    exact ⟨[], rfl, .inl rfl, rfl⟩
  · next c cs =>
    split at h
    · next he =>
      split at h
      next sign mid hsign =>
      have hmid : ∃ ss, cs = ss ++ mid ∧ (ss = [] ∨ ss = ['+'] ∨ ss = ['-']) ∧
          sign = if ss = ['-'] then -1 else 1 := by
        split at hsign <;> cases hsign
        · exact ⟨['-'], rfl, .inr (.inr rfl), rfl⟩
        · exact ⟨['+'], rfl, .inr (.inl rfl), rfl⟩
        · exact ⟨[], rfl, .inl rfl, rfl⟩
      obtain ⟨ss, rfl, hss, rfl⟩ := hmid
      split at h
      · cases h
      · next hne =>
        have hdigits := isDigits_digits (by simpa using hne)
        simp only [Option.some.injEq, Prod.mk.injEq] at h
        obtain ⟨rfl, rfl⟩ := h
        refine ⟨c :: (ss ++ (digits mid).1), ?_, .inr ⟨c, ss, _, he, hss, hdigits, rfl⟩, powerOf_digits he hss hdigits⟩
        rw [List.cons_append, List.append_assoc, digits_append]
    · cases h
      exact ⟨[], rfl, .inl rfl, rfl⟩

theorem powerOf_eq_none_iff {es : List Char} (hes : IsExponent es) : powerOf es = none ↔ es = [] := by
  rcases hes with rfl | ⟨e, sign, ds, he, hsign, hds, rfl⟩
  · exact ⟨fun _ => rfl, fun _ => rfl⟩
  · simp [powerOf_digits he hsign hds]

/-! The whole number. -/

theorem integer?_eq_some_iff {negative : Bool} {n : Nat} {i : Int} :
    integer? negative n = some i ↔ IsWhole negative n i := by
  constructor
  · intro h
    cases negative with
    | false =>
      rw [integer?, if_neg Bool.false_ne_true, Option.ite_none_right_eq_some] at h
      obtain ⟨hn, h⟩ := h
      cases h
      exact .natural hn
    | true =>
      rw [integer?, if_pos rfl, Option.ite_none_right_eq_some] at h
      obtain ⟨hn, h⟩ := h
      cases h
      exact .negative ⟨Nat.pos_of_ne_zero hn.1, hn.2⟩
  · rintro (h | h)
    · rw [integer?, if_neg Bool.false_ne_true]
      exact if_pos h
    · rw [integer?, if_pos rfl]
      exact if_pos ⟨Nat.ne_of_gt h.1, h.2⟩

/-- A number written as an integer is whole where it fits, and no other is. -/
theorem denoted?_spec {negative : Bool} {ds fs : List Char} {power : Option Int} {n : Number}
    (h : denoted? negative ds fs power = some n) :
    (∃ i, (fs = [] ∧ power = none) ∧ IsWhole negative (Nat.ofDigitChars 10 ds 0) i ∧ n = .whole i) ∨
    (∃ x, x.negative = negative ∧ n = .real x ∧
      (fs = [] ∧ power = none → ∀ i, ¬IsWhole negative (Nat.ofDigitChars 10 ds 0) i)) := by
  unfold denoted? at h
  rw [value, Text.foldl_eq_ofDigitChars] at h
  split at h
  · next i hi =>
    cases h
    obtain ⟨hwritten, hi⟩ := Option.ite_none_right_eq_some.1 hi
    exact .inl ⟨i, by simpa using hwritten, integer?_eq_some_iff.1 hi, rfl⟩
  · next hnone =>
    obtain ⟨x, hx, rfl⟩ := Option.map_eq_some_iff.1 h
    refine .inr ⟨x, Number.Binary64.negative_ofDecimal? hx, rfl, ?_⟩
    rintro ⟨rfl, rfl⟩ i hi
    rw [← integer?_eq_some_iff] at hi
    simp [hi] at hnone

theorem denoted?_of_isWhole {negative : Bool} {ds : List Char} {i : Int}
    (h : IsWhole negative (Nat.ofDigitChars 10 ds 0) i) : denoted? negative ds [] none = some (.whole i) := by
  have hvalue : value ds = Nat.ofDigitChars 10 ds 0 := Text.foldl_eq_ofDigitChars ds
  simp [denoted?, hvalue, integer?_eq_some_iff.2 h]

theorem front_of_isExponent {es : List Char} (hes : IsExponent es) (hrest : EndsNumber rest) :
    EndsDigits (es ++ rest) ∧ (es ++ rest).head? ≠ some '.' := by
  rcases hes with rfl | ⟨e, sign, ds, rfl | rfl, _, _, rfl⟩
  · exact ⟨hrest.endsDigits, fun hpoint => absurd (hrest '.' hpoint).2 (by decide)⟩
  · simp [EndsDigits]
  · simp [EndsDigits]

theorem endsDigits_of_isFraction {fs : List Char} (hfs : IsFraction fs) (hrest : EndsDigits rest) :
    EndsDigits (fs ++ rest) := by
  rcases hfs with rfl | ⟨ds, _, rfl⟩
  · exact hrest
  · simp [EndsDigits]

theorem number?_append (negative : Bool) {ds fs es : List Char} (hds : IsInteger ds) (hfs : IsFraction fs)
    (hes : IsExponent es) (hrest : EndsNumber rest) :
    number? negative (ds ++ (fs ++ (es ++ rest))) =
      (denoted? negative ds (fs.drop 1) (powerOf es)).map fun n => (n, rest) := by
  obtain ⟨hafter, hpoint⟩ := front_of_isExponent hes hrest
  have hdigits := digits_of_isDigits hds.1 (endsDigits_of_isFraction hfs hafter)
  have hzero : ds.head? = some '0' → ds.length = 1 := fun hzero => by rw [hds.2 hzero, List.length_singleton]
  have hfront : ¬(ds.isEmpty = true ∨ (ds.head? = some '0' ∧ ds.length ≠ 1)) := by
    simpa [hds.1.1] using hzero
  simp only [number?, hdigits, if_neg hfront, fraction?_append hfs hafter hpoint, Option.bind_eq_bind, Option.bind_some,
    exponent?_append hes hrest]
  cases denoted? negative ds (fs.drop 1) (powerOf es) <;> rfl

theorem number?_spec {negative : Bool} {n : Number} (h : number? negative cs = some (n, rest)) :
    ∃ ds fs es, cs = ds ++ (fs ++ (es ++ rest)) ∧ IsInteger ds ∧ IsFraction fs ∧ IsExponent es ∧
      denoted? negative ds (fs.drop 1) (powerOf es) = some n := by
  simp only [number?, Option.bind_eq_bind] at h
  split at h
  · cases h
  · next hd =>
    simp only [Option.bind_eq_some_iff, Prod.exists, Option.pure_def, Option.some.injEq, Prod.mk.injEq] at h
    obtain ⟨fds, afterFraction, hf, power, afterPower, hp, _, hn, rfl, rfl⟩ := h
    have hinteger : IsInteger (digits cs).1 := by
      rw [not_or, Bool.not_eq_true] at hd
      refine ⟨isDigits_digits hd.1, fun hzero => ?_⟩
      obtain ⟨ds, hds⟩ := List.head?_eq_some_iff.1 hzero
      have hlength : (digits cs).1.length = 1 := by_contra fun hne => hd.2 ⟨hzero, hne⟩
      rw [hds] at hlength ⊢
      rw [List.length_eq_zero_iff.1 (Nat.succ.inj hlength)]
    obtain ⟨fs, hfs, hfraction, rfl⟩ := fraction?_spec hf
    obtain ⟨es, hes, hexponent, rfl⟩ := exponent?_spec hp
    refine ⟨_, fs, es, ?_, hinteger, hfraction, hexponent, hn⟩
    rw [← hes, ← hfs, digits_append]

/-- The real number that a numeral is read as. -/
def round? (cs : List Char) : Option RecordSource.Number.Binary64 :=
  let read := match cs with
    | '-' :: ds => number? true ds
    | ds => number? false ds
  read.bind fun r => match r.1 with
    | .real x => some x
    | .whole _ => none

theorem round?_eq_some_iff {negative : Bool} {ds : List Char} {x : RecordSource.Number.Binary64} (hds : IsInteger ds) :
    round? (signOf negative ++ (ds ++ cs)) = some x ↔
      ∃ rest, number? negative (ds ++ cs) = some (.real x, rest) := by
  obtain ⟨d, ds, rfl⟩ := List.exists_cons_of_ne_nil hds.1.1
  have hd := hds.1.2 d List.mem_cons_self
  have hread : round? (signOf negative ++ (d :: ds ++ cs)) = (number? negative (d :: ds ++ cs)).bind fun r =>
      match r.1 with
      | .real x => some x
      | .whole _ => none := by
    cases negative with
    | true => rfl
    | false =>
      rw [signOf, if_neg Bool.false_ne_true, List.nil_append, List.cons_append, round?]
      · intro _ heq
        cases heq
        exact absurd hd (by decide)
  rw [hread, Option.bind_eq_some_iff]
  constructor
  · rintro ⟨⟨n, rest⟩, hn, hx⟩
    cases n with
    | real y =>
      cases hx
      exact ⟨rest, hn⟩
    | whole => cases hx
  · rintro ⟨rest, hn⟩
    exact ⟨_, hn, rfl⟩

theorem isNumeral_of_number? {negative : Bool} {n : Number} (h : number? negative cs = some (n, rest)) :
    ∃ ds, cs = ds ++ rest ∧ IsNumeral round? (signOf negative ++ ds) n := by
  obtain ⟨ds, fs, es, rfl, hds, hfs, hes, hn⟩ := number?_spec h
  refine ⟨ds ++ (fs ++ es), by simp, ?_⟩
  rcases denoted?_spec hn with ⟨i, hwritten, hi, rfl⟩ | ⟨x, rfl, rfl, hx⟩
  · rw [drop_eq_nil_iff hfs, powerOf_eq_none_iff hes] at hwritten
    rw [hwritten.1, hwritten.2, List.append_nil, List.append_nil]
    exact .whole hds hi
  · rw [drop_eq_nil_iff hfs, powerOf_eq_none_iff hes] at hx
    refine .real hds hfs hes (fun hf he => hx ⟨hf, he⟩) ((round?_eq_some_iff hds).2 ⟨[], ?_⟩) rfl
    have hnumber := number?_append x.negative hds hfs hes endsNumber_nil
    rw [hn, List.append_nil] at hnumber
    exact hnumber

theorem number?_of_isNumeral {n : Number} (h : IsNumeral round? cs n) (hrest : EndsNumber rest) :
    ∃ negative c ds, cs = signOf negative ++ c :: ds ∧ c.isDigit = true ∧
      number? negative (c :: ds ++ rest) = some (n, rest) := by
  cases h with
  | @whole negative ds i hds hi =>
    have hnumber := number?_append negative hds (.inl rfl) (.inl rfl) hrest
    obtain ⟨c, ds, rfl⟩ := List.exists_cons_of_ne_nil hds.1.1
    refine ⟨negative, c, ds, rfl, hds.1.2 c List.mem_cons_self, ?_⟩
    rw [List.nil_append, List.nil_append, List.drop_nil, powerOf, exponent?] at hnumber
    rw [hnumber]
    exact congrArg _ (denoted?_of_isWhole hi)
  | @real negative ds fs es x hds hfs hes hnot hround hsign =>
    have hnumber := number?_append negative hds hfs hes hrest
    have halone := number?_append negative hds hfs hes endsNumber_nil
    obtain ⟨rest', hread⟩ := (round?_eq_some_iff hds).1 hround
    rw [List.append_nil, hread] at halone
    obtain ⟨y, hy, heq⟩ := Option.map_eq_some_iff.1 halone.symm
    cases heq
    obtain ⟨c, ds, rfl⟩ := List.exists_cons_of_ne_nil hds.1.1
    refine ⟨negative, c, ds ++ (fs ++ es), rfl, hds.1.2 c List.mem_cons_self, ?_⟩
    rw [hy] at hnumber
    simpa using hnumber

end RecordSource.Json.Token
