import RecordSource.Outcome
import RecordSource.Json.Value

/-!
The tokens of a JSON text. Texts are strict: no blank but the four of the standard, no leading zero, no control
character inside a string, every escape complete.
-/
namespace RecordSource.Json

inductive Token where
  | openArray | closeArray | openObject | closeObject | comma | colon
  | null
  | bool (b : Bool)
  | number (n : Number)
  | string (s : String)
  deriving DecidableEq, Repr

namespace Token

def hexDigit? (c : Char) : Option Nat :=
  if c.isDigit then some (c.toNat - 48)
  else if 'a' ≤ c ∧ c ≤ 'f' then some (c.toNat - 87)
  else if 'A' ≤ c ∧ c ≤ 'F' then some (c.toNat - 55)
  else none

/-- The code unit that four hexadecimal digits name, and the rest. -/
def unit? : List Char → Option (Nat × List Char)
  | a :: b :: c :: d :: cs => do
    let a ← hexDigit? a
    let b ← hexDigit? b
    let c ← hexDigit? c
    let d ← hexDigit? d
    return (((a * 16 + b) * 16 + c) * 16 + d, cs)
  | _ => none

/-- The character after `\u`, from one code unit or a pair of surrogates, and the rest. -/
def unicode? (cs : List Char) : Option (Char × List Char) := do
  let (high, cs) ← unit? cs
  if 0xd800 ≤ high ∧ high < 0xdc00 then
    match cs with
    | '\\' :: 'u' :: cs =>
      let (low, cs) ← unit? cs
      if 0xdc00 ≤ low ∧ low < 0xe000 then
        return (Char.ofNat (0x10000 + (high - 0xd800) * 0x400 + (low - 0xdc00)), cs)
      else none
    | _ => none
  else if 0xdc00 ≤ high ∧ high < 0xe000 then none
  else return (Char.ofNat high, cs)

/-- What a backslash and the next characters stand for, and the rest. -/
def escape? : List Char → Option (Char × List Char)
  | '"' :: cs => some ('"', cs)
  | '\\' :: cs => some ('\\', cs)
  | '/' :: cs => some ('/', cs)
  | 'b' :: cs => some ('\x08', cs)
  | 'f' :: cs => some ('\x0c', cs)
  | 'n' :: cs => some ('\n', cs)
  | 'r' :: cs => some ('\r', cs)
  | 't' :: cs => some ('\t', cs)
  | 'u' :: cs => unicode? cs
  | _ => none

theorem unit?_shorter {cs rest : List Char} {n : Nat} (h : unit? cs = some (n, rest)) :
    rest.length < cs.length := by
  unfold unit? at h
  split at h
  · simp only [Option.bind_eq_bind, Option.bind_eq_some_iff, Option.pure_def, Option.some.injEq,
      Prod.mk.injEq] at h
    obtain ⟨_, _, _, _, _, _, _, _, _, rfl⟩ := h
    simp only [List.length_cons]
    omega
  · cases h

theorem unicode?_shorter {cs rest : List Char} {c : Char} (h : unicode? cs = some (c, rest)) :
    rest.length < cs.length := by
  unfold unicode? at h
  simp only [Option.bind_eq_bind, Option.bind_eq_some_iff, Prod.exists] at h
  obtain ⟨high, mid, hm, h⟩ := h
  have h1 := unit?_shorter hm
  split at h
  · split at h
    · simp only [Option.bind_eq_some_iff, Prod.exists] at h
      obtain ⟨low, last, hl, h⟩ := h
      have h2 := unit?_shorter hl
      split at h
      · simp only [Option.pure_def, Option.some.injEq, Prod.mk.injEq] at h
        obtain ⟨_, rfl⟩ := h
        simp only [List.length_cons] at h1
        omega
      · cases h
    · cases h
  · split at h
    · cases h
    · simp only [Option.pure_def, Option.some.injEq, Prod.mk.injEq] at h
      obtain ⟨_, rfl⟩ := h
      exact h1

theorem escape?_shorter {cs rest : List Char} {c : Char} (h : escape? cs = some (c, rest)) :
    rest.length < cs.length := by
  unfold escape? at h
  split at h
  case h_9 => exact Nat.lt_succ_of_lt (unicode?_shorter h)
  all_goals first | (simp only [Option.some.injEq, Prod.mk.injEq] at h; obtain ⟨_, rfl⟩ := h; simp) | cases h

/-- The text of a string after its opening quote, the latest character first on `acc`, and the rest. -/
def string? (acc : List Char) : List Char → Option (String × List Char)
  | [] => none
  | '"' :: cs => some (String.ofList acc.reverse, cs)
  | '\\' :: cs => match _h : escape? cs with
    | some (c, rest) => string? (c :: acc) rest
    | none => none
  | c :: cs => if c.toNat < 0x20 then none else string? (c :: acc) cs
  termination_by cs => cs.length
  decreasing_by
    · exact Nat.lt_succ_of_lt (escape?_shorter _h)
    · simp

def digits (cs : List Char) : List Char × List Char := (cs.takeWhile Char.isDigit, cs.dropWhile Char.isDigit)

def value (ds : List Char) : Nat := ds.foldl (fun n d => n * 10 + (d.toNat - 48)) 0

/-- The fraction of a number: the digits after its point, if there is one. -/
def fraction? : List Char → Option (List Char × List Char)
  | '.' :: cs => if (digits cs).1.isEmpty then none else some (digits cs)
  | cs => some ([], cs)

/-- The power of ten of a number with an exponent. -/
def exponent? : List Char → Option (Option Int × List Char)
  | [] => some (none, [])
  | c :: cs =>
    if c = 'e' ∨ c = 'E' then
      let (sign, cs) : Int × List Char := match cs with
        | '-' :: cs => (-1, cs)
        | '+' :: cs => (1, cs)
        | cs => (1, cs)
      if (digits cs).1.isEmpty then none
      else some (some (sign * value (digits cs).1), (digits cs).2)
    else some (none, c :: cs)

/-- The integer with the given sign and magnitude, if it has 64 bits; zero has no sign. -/
def integer? (negative : Bool) (n : Nat) : Option Int :=
  if negative then if n ≠ 0 ∧ n ≤ 1 <<< 63 then some (-n) else none
  else if n < 1 <<< 64 then some n else none

/-- The significand after `n` and some digits, and how many of those it leaves out: a digit with which it would not
fit in 64 bits, and all after that. -/
def significand (n : Nat) : List Char → Nat × Nat
  | [] => (n, 0)
  | d :: ds =>
    let m := n * 10 + (d.toNat - 48)
    if m < 1 <<< 64 then significand m ds else (n, ds.length + 1)

theorem significand_lt {n : Nat} (ds : List Char) (h : n < 1 <<< 64) : (significand n ds).1 < 1 <<< 64 := by
  fun_induction significand n ds with
  | case1 => exact h
  | case2 n d ds m hm ih => exact ih hm
  | case3 => exact h

/-- The number with the given digits before and after its point: an integer if it is written so and fits, else a
binary64 read from its significand. A digit left out before the point still counts as a place, one after it does
not. -/
def denoted? (negative : Bool) (ds fs : List Char) (power : Option Int) : Option Number :=
  match if fs.isEmpty && power.isNone then integer? negative (value ds) else none with
  | some n => some (.whole n)
  | none =>
    let (n, before) := significand 0 ds
    let (n, after) := significand n fs
    (RecordSource.Number.Binary64.ofDecimal? negative n (power.getD 0 + before + after - fs.length)).map .real

/-- The number at the front of a text, its sign apart, and the rest. No digit stands after a leading zero. -/
def number? (negative : Bool) (cs : List Char) : Option (Number × List Char) := do
  let (ds, rest) := digits cs
  if ds.isEmpty ∨ (ds.head? = some '0' ∧ ds.length ≠ 1) then none
  let (fs, rest) ← fraction? rest
  let (power, rest) ← exponent? rest
  return (← denoted? negative ds fs power, rest)

def isBlank (c : Char) : Bool := c == ' ' || c == '\t' || c == '\n' || c == '\r'

/-- The token at the front of a text, and the rest. -/
def read? : List Char → Option (Token × List Char)
  | '[' :: cs => some (openArray, cs)
  | ']' :: cs => some (closeArray, cs)
  | '\x7b' :: cs => some (openObject, cs)
  | '\x7d' :: cs => some (closeObject, cs)
  | ',' :: cs => some (comma, cs)
  | ':' :: cs => some (colon, cs)
  | 'n' :: 'u' :: 'l' :: 'l' :: cs => some (null, cs)
  | 't' :: 'r' :: 'u' :: 'e' :: cs => some (bool true, cs)
  | 'f' :: 'a' :: 'l' :: 's' :: 'e' :: cs => some (bool false, cs)
  | '"' :: cs => (string? [] cs).map fun (s, rest) => (string s, rest)
  | '-' :: cs => (number? true cs).map fun (n, rest) => (number n, rest)
  | cs => (number? false cs).map fun (n, rest) => (number n, rest)

theorem string?_shorter {acc cs rest : List Char} {s : String} (h : string? acc cs = some (s, rest)) :
    rest.length < cs.length := by
  fun_induction string? acc cs with
  | case1 => cases h
  | case2 acc cs =>
    simp only [Option.some.injEq, Prod.mk.injEq] at h
    simp [h.2]
  | case3 acc cs c mid he ih =>
    have := escape?_shorter he
    have := ih h
    simp only [List.length_cons]
    omega
  | case4 => cases h
  | case5 => cases h
  | case6 acc c cs _ _ _ ih => exact Nat.lt_succ_of_lt (ih h)

theorem length_digits_le (cs : List Char) : (digits cs).2.length ≤ cs.length :=
  (List.dropWhile_suffix _).length_le

theorem length_digits_lt {cs : List Char} (h : (digits cs).1.isEmpty = false) :
    (digits cs).2.length < cs.length := by
  cases cs with
  | nil => simp [digits] at h
  | cons c cs =>
    by_cases hc : c.isDigit = true
    · simp only [digits, List.dropWhile_cons, hc, if_true]
      exact Nat.lt_succ_of_le (length_digits_le cs)
    · simp [digits, hc] at h

theorem fraction?_le {cs ds rest : List Char} (h : fraction? cs = some (ds, rest)) :
    rest.length ≤ cs.length := by
  unfold fraction? at h
  split at h
  · next cs =>
    split at h
    · cases h
    · simp only [Option.some.injEq] at h
      have := length_digits_le cs
      rw [h] at this
      exact Nat.le_succ_of_le this
  · simp only [Option.some.injEq, Prod.mk.injEq] at h
    simp [h.2]

theorem exponent?_le {cs rest : List Char} {power : Option Int} (h : exponent? cs = some (power, rest)) :
    rest.length ≤ cs.length := by
  unfold exponent? at h
  split at h
  · simp_all
  · next c cs =>
    split at h
    · split at h
      split at h
      · cases h
      · next x sign mid hsign _ =>
        simp only [Option.some.injEq, Prod.mk.injEq] at h
        have hmid : mid.length ≤ cs.length := by
          split at hsign <;> simp only [Prod.mk.injEq] at hsign <;> simp [← hsign.2]
        have := length_digits_le mid
        rw [← h.2, List.length_cons]
        omega
    · simp only [Option.some.injEq, Prod.mk.injEq] at h
      simp [← h.2]

theorem number?_shorter {negative : Bool} {cs rest : List Char} {n : Number}
    (h : number? negative cs = some (n, rest)) : rest.length < cs.length := by
  simp only [number?, Option.bind_eq_bind] at h
  split at h
  · cases h
  · next hd =>
    have hlt : (digits cs).2.length < cs.length :=
      length_digits_lt (by simpa using fun he => hd (Or.inl (by simpa using he)))
    simp only [Option.bind_eq_some_iff, Prod.exists] at h
    obtain ⟨fs, afterFraction, hf, power, afterPower, hp, h⟩ := h
    have := fraction?_le hf
    have := exponent?_le hp
    simp only [Option.pure_def, Option.some.injEq, Prod.mk.injEq] at h
    obtain ⟨_, _, _, rfl⟩ := h
    omega

theorem read?_shorter {cs rest : List Char} {t : Token} (h : read? cs = some (t, rest)) :
    rest.length < cs.length := by
  unfold read? at h
  split at h
  case h_10 =>
    obtain ⟨⟨s, q⟩, hs, heq⟩ := Option.map_eq_some_iff.1 h
    simp only [Prod.mk.injEq] at heq
    rw [← heq.2]
    exact Nat.lt_succ_of_lt (string?_shorter hs)
  case h_11 =>
    obtain ⟨⟨s, q⟩, hs, heq⟩ := Option.map_eq_some_iff.1 h
    simp only [Prod.mk.injEq] at heq
    rw [← heq.2]
    exact Nat.lt_succ_of_lt (number?_shorter hs)
  case h_12 =>
    obtain ⟨⟨s, q⟩, hs, heq⟩ := Option.map_eq_some_iff.1 h
    simp only [Prod.mk.injEq] at heq
    rw [← heq.2]
    exact number?_shorter hs
  all_goals
    simp only [Option.some.injEq, Prod.mk.injEq] at h
    obtain ⟨_, rfl⟩ := h
    simp only [List.length_cons]
    omega

/-- The tokens of a text. -/
def scan : List Char → Option (List Token)
  | [] => some []
  | c :: cs =>
    if isBlank c then scan cs
    else match _h : read? (c :: cs) with
      | some (t, rest) => (scan rest).map (t :: ·)
      | none => none
  termination_by cs => cs.length
  decreasing_by
    · simp
    · exact read?_shorter _h

end Token
end RecordSource.Json
