import Mathlib.Algebra.Group.Nat.Defs
import RecordSource.Text.Classes

/-!
Numbers written in decimal digits. A number that is written is read back, leading zeros do not change what is read, and
numerals of one length sort as the numbers that they denote.
-/
namespace RecordSource.Text

theorem not_blank_of_isDigit {c : Char} (h : c.isDigit = true) : isBlank c = false := by
  obtain ⟨lo, hi⟩ := toNat_of_isDigit h
  simp [isBlank]
  omega

theorem foldl_eq_ofDigitChars (cs : List Char) :
    cs.foldl (fun n c => n * 10 + (c.toNat - 48)) 0 = Nat.ofDigitChars 10 cs 0 := by
  simp [Nat.ofDigitChars_eq_foldl, Nat.mul_comm]

theorem asciiNumber?_eq_some_iff {cs : List Char} {n : Nat} :
    asciiNumber? cs = some n ↔ cs ≠ [] ∧ (∀ c ∈ cs, c.isDigit = true) ∧ Nat.ofDigitChars 10 cs 0 = n := by
  rw [asciiNumber?, foldl_eq_ofDigitChars]
  by_cases h : cs ≠ [] ∧ ∀ c ∈ cs, c.isDigit = true
  · rw [if_neg (by simpa using h), Option.some.injEq]
    exact ⟨fun heq => ⟨h.1, h.2, heq⟩, fun h => h.2.2⟩
  · rw [if_pos (by simpa [Classical.or_iff_not_imp_left] using h)]
    simp only [reduceCtorEq, false_iff]
    exact fun hall => h ⟨hall.1, hall.2.1⟩

theorem isDigit_of_mem_numeral (zeros n : Nat) :
    ∀ c ∈ List.replicate zeros '0' ++ Nat.toDigits 10 n, c.isDigit = true := by
  refine List.forall_mem_append.2 ⟨?_, fun c => Nat.isDigit_of_mem_toDigits (by decide) (by decide)⟩
  intro c hc
  rw [(List.mem_replicate.1 hc).2]
  rfl

theorem asciiNumber?_numeral (zeros n : Nat) :
    asciiNumber? (List.replicate zeros '0' ++ Nat.toDigits 10 n) = some n := by
  refine asciiNumber?_eq_some_iff.2 ⟨by simp [Nat.toDigits_ne_nil], isDigit_of_mem_numeral zeros n, ?_⟩
  rw [Nat.ofDigitChars_append, Nat.ofDigitChars_replicate_zero, Nat.mul_zero, Nat.ofDigitChars_ten_toDigits]

theorem asciiNumber?_toDigits (n : Nat) : asciiNumber? (Nat.toDigits 10 n) = some n :=
  asciiNumber?_numeral 0 n

theorem ofDigitChars_cons_eq (c : Char) (cs : List Char) :
    Nat.ofDigitChars 10 (c :: cs) 0 = 10 ^ cs.length * (c.toNat - 48) + Nat.ofDigitChars 10 cs 0 := by
  rw [Nat.ofDigitChars_cons, Nat.ofDigitChars_eq_ofDigitChars_zero, Nat.mul_zero, Nat.zero_add]
  rfl

theorem ofDigitChars_lt {cs : List Char} (h : ∀ c ∈ cs, c.isDigit = true) :
    Nat.ofDigitChars 10 cs 0 < 10 ^ cs.length := by
  induction cs with
  | nil => simp
  | cons c cs ih =>
    rw [List.forall_mem_cons] at h
    have hc := toNat_of_isDigit h.1
    have hrest := ih h.2
    have hfirst : 10 ^ cs.length * (c.toNat - 48) ≤ 10 ^ cs.length * 9 := Nat.mul_le_mul_left _ (by omega)
    rw [ofDigitChars_cons_eq, List.length_cons, Nat.pow_succ]
    omega

/-- The first digit in which two numerals of one length differ decides, whatever follows them. -/
theorem append_lt_append_of_ofDigitChars_lt {cs ds : List Char} (hcs : ∀ c ∈ cs, c.isDigit = true)
    (hds : ∀ d ∈ ds, d.isDigit = true) (hlen : cs.length = ds.length)
    (h : Nat.ofDigitChars 10 cs 0 < Nat.ofDigitChars 10 ds 0) (us vs : List Char) : cs ++ us < ds ++ vs := by
  induction cs generalizing ds with
  | nil =>
    obtain rfl : ds = [] := List.length_eq_zero_iff.1 hlen.symm
    exact absurd h (Nat.lt_irrefl _)
  | cons c cs ih =>
    cases ds with
    | nil => cases hlen
    | cons d ds =>
      rw [List.forall_mem_cons] at hcs hds
      have hlen : cs.length = ds.length := Nat.succ.inj hlen
      have hc := toNat_of_isDigit hcs.1
      have hd := toNat_of_isDigit hds.1
      have hrest := ofDigitChars_lt hds.2
      rw [ofDigitChars_cons_eq, ofDigitChars_cons_eq, hlen] at h
      rw [List.cons_append, List.cons_append, List.cons_lt_cons_iff]
      rcases Nat.lt_trichotomy c.toNat d.toNat with hlt | heq | hgt
      · exact .inl hlt
      · refine .inr ⟨Char.toNat_inj.1 heq, ih hcs.2 hds.2 hlen ?_⟩
        rw [heq] at h
        omega
      · -- A greater first digit outweighs all that follow.
        have hfirst : 10 ^ ds.length * (d.toNat - 48 + 1) ≤ 10 ^ ds.length * (c.toNat - 48) :=
          Nat.mul_le_mul_left _ (by omega)
        rw [Nat.mul_add] at hfirst
        omega

theorem append_lt_append_of_number_lt {cs ds : List Char} {m n : Nat} (hm : asciiNumber? cs = some m)
    (hn : asciiNumber? ds = some n) (hlen : cs.length = ds.length) (h : m < n) (us vs : List Char) :
    cs ++ us < ds ++ vs := by
  obtain ⟨_, hcs, rfl⟩ := asciiNumber?_eq_some_iff.1 hm
  obtain ⟨_, hds, rfl⟩ := asciiNumber?_eq_some_iff.1 hn
  exact append_lt_append_of_ofDigitChars_lt hcs hds hlen h us vs

end RecordSource.Text
