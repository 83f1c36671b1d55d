/-!
Finite binary64 numbers, the one read from a decimal, and the shortest decimal nearest to one. Both ways run in exact
natural arithmetic.
-/
namespace RecordSource.Number

/-- `± mantissa · 2 ^ exponent`, with at most 53 bits in the mantissa and no exponent below -1074. -/
structure Binary64 where
  negative : Bool
  mantissa : Nat
  exponent : Int
  deriving DecidableEq, Repr

/-- The integer nearest to `n / d`; of two, the even one. -/
def roundHalfEven (n d : Nat) : Nat :=
  let q := n / d
  let twice := 2 * (n % d)
  if twice < d then q else if d < twice then q + 1 else if q % 2 = 0 then q else q + 1

theorem roundHalfEven_one (n : Nat) : roundHalfEven n 1 = n := by
  simp [roundHalfEven, Nat.mod_one]

/-- How many decimal digits a number has; zero has one. -/
def digitCount (n : Nat) : Nat := (Nat.toDigits 10 n).length

namespace Binary64

/-- The number nearest to `± n / d`, of two the one with the even mantissa; nothing beyond the largest. The mantissa
has 53 bits, or the exponent is the least. -/
def ofQuotient? (negative : Bool) (n d : Nat) : Option Binary64 :=
  let scaled (e : Int) : Nat × Nat := if e < 0 then (n <<< e.natAbs, d) else (n, d <<< e.natAbs)
  let guess : Int := max ((n.log2 : Int) - d.log2 - 53) (-1074)
  let (a, b) := scaled guess
  let e := if a / b < 1 <<< 53 then guess else guess + 1
  let (a, b) := scaled e
  let m := roundHalfEven a b
  let (m, e) := if m = 1 <<< 53 then (1 <<< 52, e + 1) else (m, e)
  if 971 < e then none else some ⟨negative, m, e⟩

/-- The magnitude as a quotient. -/
def ratio (x : Binary64) : Nat × Nat :=
  if x.exponent < 0 then (x.mantissa, 1 <<< x.exponent.natAbs) else (x.mantissa <<< x.exponent.natAbs, 1)

/-- The product with a power of ten, or the quotient by one, rounded once. The power of ten is a number too: the one
nearest to it. -/
def timesTen? (x : Binary64) (power : Int) : Option Binary64 := do
  let (n, d) := x.ratio
  let (p, q) := (← ofQuotient? false (Nat.pow 10 power.natAbs) 1).ratio
  if power < 0 then ofQuotient? x.negative (n * q) (d * p) else ofQuotient? x.negative (n * p) (d * q)

/-- The product with a power of ten of any size. No power of ten above 308 is a number: a product with one is too
large, a quotient by one is taken in steps. -/
def scale? (x : Binary64) (power : Int) : Option Binary64 :=
  if x.mantissa = 0 then some x
  else if 308 < power then none
  else if power < -308 then (x.timesTen? (-308)).bind fun y => y.scale? (power + 308)
  else x.timesTen? power
  termination_by power.natAbs
  decreasing_by omega

/-- The number read from `± digits · 10 ^ power`: the one nearest to the digits, scaled. Where the digits and the
power of ten are numbers themselves, it is the nearest to the decimal; else it may be a neighbour of that. -/
def ofDecimal? (negative : Bool) (digits : Nat) (power : Int) : Option Binary64 :=
  if digits = 0 then some ⟨negative, 0, -1074⟩ else (ofQuotient? negative digits 1).bind (·.scale? power)

/-! A number has the sign that it is read with. -/

theorem negative_ofQuotient? {negative : Bool} {n d : Nat} {x : Binary64} (h : ofQuotient? negative n d = some x) :
    x.negative = negative := by
  unfold ofQuotient? at h
  extract_lets scaled guess at h
  split at h
  extract_lets e at h
  split at h
  extract_lets m at h
  split at h
  split at h
  · cases h
  · exact Option.some.inj h ▸ rfl

theorem negative_timesTen? {x y : Binary64} {power : Int} (h : x.timesTen? power = some y) :
    y.negative = x.negative := by
  simp only [timesTen?, Option.bind_eq_bind, Option.bind_eq_some_iff] at h
  obtain ⟨_, _, h⟩ := h
  split at h <;> exact negative_ofQuotient? h

theorem negative_scale? {x y : Binary64} {power : Int} (h : x.scale? power = some y) : y.negative = x.negative := by
  fun_induction scale? x power with
  | case1 =>
    cases h
    rfl
  | case2 => cases h
  | case3 x power _ _ _ ih =>
    obtain ⟨z, hz, h⟩ := Option.bind_eq_some_iff.1 h
    rw [ih z h, negative_timesTen? hz]
  | case4 => exact negative_timesTen? h

theorem negative_ofDecimal? {negative : Bool} {digits : Nat} {power : Int} {x : Binary64}
    (h : ofDecimal? negative digits power = some x) : x.negative = negative := by
  unfold ofDecimal? at h
  split at h
  · cases h
    rfl
  · obtain ⟨y, hy, h⟩ := Option.bind_eq_some_iff.1 h
    rw [negative_scale? h, negative_ofQuotient? hy]

/-- On the grid of the multiples of `g`, the one nearest to `v` of those between `lo` and `hi`, the bounds included
on demand; of two, the even one. -/
def onGrid? (closed : Bool) (lo v hi g : Nat) : Option Nat :=
  let c := v / g
  let fits (k : Nat) : Bool := (lo < k * g && k * g < hi) || (closed && (k * g == lo || k * g == hi))
  match fits c, fits (c + 1) with
  | true, true =>
    let below := v - c * g
    let above := (c + 1) * g - v
    some (if below < above then c else if above < below then c + 1 else if c % 2 = 0 then c else c + 1)
  | true, false => some c
  | false, true => some (c + 1)
  | false, false => none

/-- The coarsest decimal grid, from `10 ^ j` down, with a point in the interval: that point and the grid. -/
def coarsest (closed : Bool) (lo v hi : Nat) : Nat → Nat × Nat
  | 0 => (v, 0)
  | j + 1 => match onGrid? closed lo v hi (Nat.pow 10 (j + 1)) with
    | some c => (c, j + 1)
    | none => coarsest closed lo v hi j

/-- The shortest decimal `digits · 10 ^ power` that rounds to the number, the nearest of those. Each bound of the
interval that rounds so lies half a step away, below a power of two a quarter. -/
def shortest (x : Binary64) : Nat × Int :=
  if x.mantissa = 0 then (0, 0)
  else
    let e := x.exponent - 2
    let scale (k : Nat) : Nat := if e < 0 then k * Nat.pow 5 e.natAbs else k <<< e.natAbs
    let down := if x.mantissa = 1 <<< 52 ∧ -1074 < x.exponent then 1 else 2
    let v := scale (4 * x.mantissa)
    let (c, j) := coarsest (x.mantissa % 2 == 0) (scale (4 * x.mantissa - down)) v
      (scale (4 * x.mantissa + 2)) (digitCount v)
    (c, (j : Int) + min e 0)

end Binary64
end RecordSource.Number
