/-!
Two classes of characters as Unicode names them: white space, with the texts that have none at their ends, and the
decimal digits of all scripts. Trimming keeps exactly what stands between the first and the last character that is no
blank; each set of digits is laid out as ten characters in a row, from zero up.
-/
namespace RecordSource.Text

/-- The Unicode property `White_Space`. -/
def isBlank (c : Char) : Bool :=
  let n := c.toNat
  (9 ≤ n && n ≤ 13) || n == 0x20 || n == 0x85 || n == 0xa0 || n == 0x1680 ||
    (0x2000 ≤ n && n ≤ 0x200a) || n == 0x2028 || n == 0x2029 || n == 0x202f || n == 0x205f ||
    n == 0x3000

theorem isBlank_of_isWhitespace {c : Char} (h : c.isWhitespace = true) : isBlank c = true := by
  simp only [Char.isWhitespace, Bool.or_eq_true, decide_eq_true_eq] at h
  rcases h with ((rfl | rfl) | rfl) | rfl <;> rfl

/-- Drops the blanks at the end of a text. -/
def trimEnd : List Char → List Char
  | [] => []
  | c :: cs => match trimEnd cs with
    | [] => if isBlank c then [] else [c]
    | ds => c :: ds

/-- Drops the blanks at both ends of a text. -/
def trim (cs : List Char) : List Char := trimEnd (cs.dropWhile isBlank)

@[simp] theorem trimEnd_nil : trimEnd [] = [] := rfl

@[simp] theorem trim_nil : trim [] = [] := rfl

/-- Nothing but blanks. -/
def allBlank (cs : List Char) : Bool := cs.all isBlank

theorem trimEnd_eq_nil_iff {cs : List Char} : trimEnd cs = [] ↔ allBlank cs = true := by
  induction cs with
  | nil => simp [allBlank]
  | cons c cs ih =>
    by_cases hc : isBlank c = true
    · cases ht : trimEnd cs <;> simp_all [trimEnd, allBlank]
    · cases ht : trimEnd cs <;> simp_all [trimEnd, allBlank]

example : trim [' ', 'a', ' ', 'b', '\n'] = ['a', ' ', 'b'] := rfl

/-- The zeros of the Unicode property `Nd`. -/
def zeros : List Nat :=
  [0x30, 0x660, 0x6f0, 0x7c0, 0x966, 0x9e6, 0xa66, 0xae6, 0xb66, 0xbe6, 0xc66, 0xce6, 0xd66, 0xde6, 0xe50,
   0xed0, 0xf20, 0x1040, 0x1090, 0x17e0, 0x1810, 0x1946, 0x19d0, 0x1a80, 0x1a90, 0x1b50, 0x1bb0, 0x1c40,
   0x1c50, 0xa620, 0xa8d0, 0xa900, 0xa9d0, 0xa9f0, 0xaa50, 0xabf0, 0xff10, 0x104a0, 0x10d30, 0x10d40, 0x11066,
   0x110f0, 0x11136, 0x111d0, 0x112f0, 0x11450, 0x114d0, 0x11650, 0x116c0, 0x116d0, 0x116da, 0x11730, 0x118e0,
   0x11950, 0x11bf0, 0x11c50, 0x11d50, 0x11da0, 0x11f50, 0x16130, 0x16a60, 0x16ac0, 0x16b50, 0x16d70, 0x1ccf0,
   0x1d7ce, 0x1d7d8, 0x1d7e2, 0x1d7ec, 0x1d7f6, 0x1e140, 0x1e2f0, 0x1e4f0, 0x1e5f1, 0x1e950, 0x1fbf0]

/-- A decimal digit of any script. -/
def isDecimal (c : Char) : Bool := zeros.any fun z => z ≤ c.toNat && c.toNat < z + 10

theorem toNat_of_isDigit {c : Char} (h : c.isDigit = true) : 48 ≤ c.toNat ∧ c.toNat ≤ 57 := by
  simpa [Char.isDigit, UInt32.le_iff_toNat_le] using h

theorem isDecimal_of_isDigit {c : Char} (h : c.isDigit = true) : isDecimal c = true := by
  obtain ⟨lo, hi⟩ := toNat_of_isDigit h
  simp only [isDecimal, zeros, List.any_cons, Bool.or_eq_true, Bool.and_eq_true, decide_eq_true_eq]
  exact Or.inl ⟨lo, by omega⟩

/-- The number that ASCII digits denote. -/
def asciiNumber? (cs : List Char) : Option Nat :=
  if cs.isEmpty || !cs.all Char.isDigit then none
  else some (cs.foldl (fun n c => n * 10 + (c.toNat - 48)) 0)

end RecordSource.Text
