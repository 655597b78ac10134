import SlidingCache.Number.Binary64

/-!
# Decimal notation

How the digits of a decimal become text: with a point among zeros where the scale is near one, and
with an exponent elsewhere. A `DecimalNotation` says where positional writing ends and how the
exponent looks.
-/

namespace SlidingCache

structure DecimalNotation where
  /-- The least scale that is written without an exponent. -/
  lowest : Int
  /-- The least scale above it that needs an exponent. -/
  limit : Int
  /-- The least number of digits of an exponent. -/
  exponentWidth : Nat

namespace Binary64.Decimal

/-- Digits with the point after the first `scale + 1` of them, zeros where digits are missing, and a
zero after a point at the end. -/
def positional (digits : Text) (scale : Int) : Text :=
  let zeros (n : Nat) : Text := List.replicate n (CodePoint.ofChar '0')
  if scale < 0 then ("0." : Text) ++ zeros (scale.natAbs - 1) ++ digits
  else
    let whole := scale.toNat + 1
    if digits.length ≤ whole then digits ++ zeros (whole - digits.length) ++ (".0" : Text)
    else digits.take whole ++ ("." : Text) ++ digits.drop whole

/-- One digit, the others after a point, and the exponent with its sign. -/
def scientific (style : DecimalNotation) (digits : Text) (scale : Int) : Text :=
  digits.take 1 ++ (if digits.length ≤ 1 then [] else ("." : Text) ++ digits.drop 1)
    ++ ("e" : Text)
    ++ (if scale < 0 then ("-" : Text) else "+")
    ++ Text.padded style.exponentWidth (Text.ofNat scale.natAbs)

def write (style : DecimalNotation) (d : Decimal) : Text :=
  let digits := Text.ofNat d.digits
  if style.lowest ≤ d.scale ∧ d.scale < style.limit then positional digits d.scale
  else scientific style digits d.scale

end Binary64.Decimal

end SlidingCache
