import SlidingCache.Number.Notation

/-!
# Rounded decimals

A 53-bit number as decimal text with a given number of places, half-way cases to the even neighbour:
with all places after the point (`Binary64.fixed`), with one digit before it and an exponent
(`Binary64.scientific`), or whichever of the two suits a number of digits (`Binary64.general`).
-/

namespace SlidingCache.Binary64

/-- The integer nearest to the number in units of `10 ^ unit`. -/
def inUnits (b : Binary64) (unit : Int) : Nat :=
  let (num, den) := b.quotient
  if unit < 0 then roundHalfEven (num * Nat.pow 10 unit.natAbs) den
  else roundHalfEven num (den * Nat.pow 10 unit.toNat)

/-- A point and what follows it; the point alone only if `point` holds. -/
def withPlaces (whole places : Text) (point : Bool) : Text :=
  if places.isEmpty ∧ !point then whole else whole ++ ("." : Text) ++ places

/-- No number has more places or digits than this: beyond it are zeros. -/
def mostPlaces : Nat := 1074

/-- The zeros among so many places that no number fills. -/
def emptyPlaces (places : Nat) : Text :=
  List.replicate (places - mostPlaces) (CodePoint.ofChar '0')

/-- Without zeros at the end. -/
def dropZeroDigits (t : Text) : Text := t.dropEndWhile (· = CodePoint.ofChar '0')

def fixed (b : Binary64) (places : Nat) (point trim : Bool) : Text :=
  let filled := min places mostPlaces
  let digits := Text.padded (filled + 1) (Text.ofNat (b.inUnits (-filled)))
  let whole := digits.take (digits.length - filled)
  let tail := digits.drop (digits.length - filled)
  withPlaces whole (if trim then dropZeroDigits tail else tail ++ emptyPlaces places) point

/-- The digits of the number rounded to `places + 1` of them, and the exponent of the first. -/
def rounded (b : Binary64) (places : Nat) : Nat × Int :=
  if b.mantissa = 0 then (0, 0)
  else
    let (num, den) := b.quotient
    let scale := floorLog10 num den
    let n := b.inUnits (scale - places)
    if n = Nat.pow 10 (places + 1) then (Nat.pow 10 places, scale + 1) else (n, scale)

def scientific (b : Binary64) (places : Nat) (point trim : Bool) : Text :=
  let filled := min places mostPlaces
  let (n, scale) := b.rounded filled
  let digits := Text.padded (filled + 1) (Text.ofNat n)
  let tail := digits.drop 1
  withPlaces (digits.take 1) (if trim then dropZeroDigits tail else tail ++ emptyPlaces places)
      point
    ++ (if scale < 0 then ("e-" : Text) else "e+") ++ Text.padded 2 (Text.ofNat scale.natAbs)

/-- With so many digits, at least one: positional from `10 ^ (-4)` up to the number of digits. Zeros
at the end are left out unless `point` holds. -/
def general (b : Binary64) (digits : Nat) (point : Bool) : Text :=
  let places := digits - 1
  let scale := (b.rounded (min places mostPlaces)).2
  if -4 ≤ scale ∧ scale < max digits 1 then b.fixed (places - scale).toNat point (!point)
  else b.scientific places point (!point)

end SlidingCache.Binary64
