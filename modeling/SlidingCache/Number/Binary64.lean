import SlidingCache.Text.Decimal

/-!
# Numbers of 53 bits

The non-negative binary64 numbers as an integer times a power of two, without the machine's
floating point: `Binary64.nearest?` rounds a quotient of natural numbers to the nearest of them,
half-way cases to the even neighbour, and `Binary64.shortest` gives the fewest decimal digits that
round back to the number, of those the nearest to it.
-/

namespace SlidingCache

/-- The integer nearest to a quotient, a half to the even one. -/
def roundHalfEven (num den : Nat) : Nat :=
  let q := num / den
  let twice := 2 * (num % den)
  if twice < den ∨ (twice = den ∧ q % 2 = 0) then q else q + 1

/-- The quotient rounded up. -/
def ceilDiv (num den : Nat) : Nat := (num + den - 1) / den

/-- A finite non-negative binary64 number `mantissa * 2 ^ exponent`. -/
structure Binary64 where
  mantissa : Nat
  exponent : Int
  deriving DecidableEq, Inhabited

namespace Binary64

def zero : Binary64 := ⟨0, -1074⟩

/-- The integer `e` with `2 ^ e ≤ num / den < 2 ^ (e + 1)`. -/
def floorLog2 (num den : Nat) : Int :=
  let e : Int := (Nat.log2 num : Int) - Nat.log2 den
  let small := if e < 0 then num * Nat.pow 2 e.natAbs < den else num < den * Nat.pow 2 e.toNat
  if small then e - 1 else e

/-- The quotient divided by a power of two and rounded, a half to even. -/
def roundAt (num den : Nat) (exponent : Int) : Nat :=
  if exponent < 0 then roundHalfEven (num * Nat.pow 2 exponent.natAbs) den
  else roundHalfEven num (den * Nat.pow 2 exponent.toNat)

/-- The number nearest to a quotient; none if that is beyond the greatest one. -/
def nearest? (num den : Nat) : Option Binary64 :=
  if num = 0 ∨ den = 0 then some zero
  else
    let exponent := max (floorLog2 num den - 52) (-1074)
    let m := roundAt num den exponent
    let r : Binary64 := if m = Nat.pow 2 53 then ⟨Nat.pow 2 52, exponent + 1⟩ else ⟨m, exponent⟩
    if 971 < r.exponent then none else some r

/-- The nearest number to a decimal `digits * 10 ^ power`. -/
def ofDecimal? (digits : Nat) (power : Int) : Option Binary64 :=
  if digits = 0 then some zero
  else if 400 < power + (Text.ofNat digits).length then none
  else if power + (Text.ofNat digits).length < -400 then some zero
  else if power < 0 then nearest? digits (Nat.pow 10 power.natAbs)
  else nearest? (digits * Nat.pow 10 power.toNat) 1

/-- Numerator and denominator. -/
def quotient (b : Binary64) : Nat × Nat :=
  if b.exponent < 0 then (b.mantissa, Nat.pow 2 b.exponent.natAbs)
  else (b.mantissa * Nat.pow 2 b.exponent.toNat, 1)

/-- Cut off at the point. -/
def truncate (b : Binary64) : Nat := b.quotient.1 / b.quotient.2

/-- The integer that a number is, if it is one. -/
def whole? (b : Binary64) : Option Nat :=
  if b.quotient.1 % b.quotient.2 = 0 then some b.truncate else none

/-- Rounded up to an integer. -/
def ceil (b : Binary64) : Nat :=
  if b.exponent < 0 then ceilDiv b.mantissa (Nat.pow 2 b.exponent.natAbs)
  else b.mantissa * Nat.pow 2 b.exponent.toNat

/-! ## Shortest decimals -/

/-- Digits and the power of ten of the first one. -/
structure Decimal where
  digits : Nat
  /-- The first digit counts units of `10 ^ scale`. -/
  scale : Int
  deriving DecidableEq, Inhabited

/-- The integer `k` with `10 ^ k ≤ num / den < 10 ^ (k + 1)`. -/
def floorLog10 (num den : Nat) : Int :=
  if den ≤ num then ((Text.ofNat (num / den)).length : Int) - 1
  else -((Text.ofNat ((den - 1) / num)).length : Int)

/-- The candidates of one length: the two neighbours on the grid of units `10 ^ unit` of the value
`mid / den` that lie between `low / den` and `high / den`, the nearer first. -/
def candidate? (low mid high den : Nat) (closed : Bool) (unit : Int) : Option Nat :=
  -- grid point `n` is `n * up / down`
  let up := if unit < 0 then 1 else Nat.pow 10 unit.toNat
  let down := if unit < 0 then Nat.pow 10 unit.natAbs else 1
  let point (n : Nat) := n * up * den
  let inside (n : Nat) : Bool :=
    if closed then low * down ≤ point n && point n ≤ high * down
    else low * down < point n && point n < high * down
  let below := mid * down / (up * den)
  let nearer := roundHalfEven (mid * down) (up * den)
  let other := if nearer = below then below + 1 else below
  if inside nearer then some nearer else if inside other then some other else none

/-- Drops zeros at the end of a number. -/
def dropZeros (n : Nat) : Nat :=
  if h : 0 < n ∧ n % 10 = 0 then dropZeros (n / 10) else n
termination_by n
decreasing_by exact Nat.div_lt_self h.1 (by decide)

/-- The fewest digits that round back to the number. -/
def shortest (b : Binary64) : Decimal :=
  if b.mantissa = 0 then ⟨0, 0⟩
  else
    -- the value and the ends of the interval that rounds to it, in quarters of a unit
    let scaleUp := if b.exponent < 0 then 1 else Nat.pow 2 b.exponent.toNat
    let den := 4 * if b.exponent < 0 then Nat.pow 2 b.exponent.natAbs else 1
    let mid := 4 * b.mantissa * scaleUp
    let high := (4 * b.mantissa + 2) * scaleUp
    let isLeast := b.mantissa = Nat.pow 2 52 ∧ -1074 < b.exponent
    let low := (4 * b.mantissa - if isLeast then 1 else 2) * scaleUp
    let k := floorLog10 mid den
    let attempt (n : Nat) : Option Decimal :=
      (candidate? low mid high den (b.mantissa % 2 = 0) (k - n)).map fun d =>
        let longer := (Text.ofNat d).length > n + 1
        ⟨dropZeros d, if longer then k + 1 else k⟩
    ((List.range 17).findSome? attempt).getD ⟨0, 0⟩

end Binary64

end SlidingCache
