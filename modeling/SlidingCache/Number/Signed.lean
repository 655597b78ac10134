import SlidingCache.Number.Binary64

/-!
# Signed numbers of 53 bits

A sign in front of a `Binary64`, zero with either sign. Sums are exact before they are rounded.
-/

namespace SlidingCache

structure Signed where
  negative : Bool := false
  magnitude : Binary64
  deriving DecidableEq, Inhabited

namespace Signed

def zero : Signed := ⟨false, .zero⟩

/-- The value in units of `2 ^ unit`, where that is an integer. -/
def inUnits (s : Signed) (unit : Int) : Int :=
  let n : Int := s.magnitude.mantissa * Nat.pow 2 (s.magnitude.exponent - unit).toNat
  if s.negative then -n else n

/-- A unit in which both values are integers. -/
def commonUnit (a b : Signed) : Int := min a.magnitude.exponent b.magnitude.exponent

def le (a b : Signed) : Bool := a.inUnits (commonUnit a b) ≤ b.inUnits (commonUnit a b)

/-- The number nearest to a sum; none if that is beyond the greatest one. -/
def add? (a b : Signed) : Option Signed :=
  let unit := commonUnit a b
  let sum := a.inUnits unit + b.inUnits unit
  let magnitude? :=
    if unit < 0 then Binary64.nearest? sum.natAbs (Nat.pow 2 unit.natAbs)
    else Binary64.nearest? (sum.natAbs * Nat.pow 2 unit.toNat) 1
  magnitude?.map fun magnitude => ⟨sum < 0, magnitude⟩

end Signed

end SlidingCache
