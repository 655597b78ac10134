import SlidingCache.Text.Basic

/-!
# UTF-8

* `CodePoint.utf8`: the one to four octets of a code point, none for a surrogate;
* `Text.utf8?`: the octets of a text, refused as a whole if a surrogate stands in it;
* `Utf8.decode?`: the text of a sequence of octets, refused unless it is well formed: no
  overlong form, no surrogate, nothing above U+10FFFF, no octet missing.
-/

namespace SlidingCache

/-- The octets of a code point by the length its number needs. -/
def CodePoint.octets (c : CodePoint) : Bytes :=
  let tail (n : Nat) : UInt8 := UInt8.ofNat (0x80 + n % 0x40)
  if c.val < 0x80 then [UInt8.ofNat c.val]
  else if c.val < 0x800 then [UInt8.ofNat (0xC0 + c.val / 0x40), tail c.val]
  else if c.val < 0x10000 then
    [UInt8.ofNat (0xE0 + c.val / 0x1000), tail (c.val / 0x40), tail c.val]
  else
    [UInt8.ofNat (0xF0 + c.val / 0x40000), tail (c.val / 0x1000), tail (c.val / 0x40), tail c.val]

def CodePoint.utf8? (c : CodePoint) : Option Bytes :=
  if c.isSurrogate then none else some c.octets

def Text.utf8? (t : Text) : Option Bytes := (t.mapM CodePoint.utf8?).map List.flatten

namespace Utf8

/-- The low six bits of a continuation octet. -/
def tail? (b : UInt8) : Option Nat :=
  if 0x80 ≤ b.toNat ∧ b.toNat ≤ 0xBF then some (b.toNat - 0x80) else none

/-- A code point of at least the given number and no surrogate: what a sequence of its length may
stand for. -/
def scalar? (least n : Nat) : Option CodePoint :=
  if n < least ∨ (0xD800 ≤ n ∧ n ≤ 0xDFFF) then none else CodePoint.ofNat? n

/-- The code point that two, three or four octets stand for. -/
def two? (a b : UInt8) : Option CodePoint := do
  if a.toNat < 0xC0 ∨ 0xDF < a.toNat then none
  scalar? 0x80 ((a.toNat - 0xC0) * 0x40 + (← tail? b))

@[inherit_doc two?] def three? (a b c : UInt8) : Option CodePoint := do
  if a.toNat < 0xE0 ∨ 0xEF < a.toNat then none
  scalar? 0x800 ((a.toNat - 0xE0) * 0x1000 + (← tail? b) * 0x40 + (← tail? c))

@[inherit_doc two?] def four? (a b c d : UInt8) : Option CodePoint := do
  if a.toNat < 0xF0 ∨ 0xF7 < a.toNat then none
  scalar? 0x10000
    ((a.toNat - 0xF0) * 0x40000 + (← tail? b) * 0x1000 + (← tail? c) * 0x40 + (← tail? d))

/-- The text of well-formed octets. The first octet tells the length. -/
def decode? : Bytes → Option Text
  | [] => some []
  | a :: r =>
    if a.toNat < 0x80 then (CodePoint.ofByte a :: ·) <$> decode? r
    else if a.toNat < 0xE0 then match r with
      | b :: r => do return (← two? a b) :: (← decode? r)
      | _ => none
    else if a.toNat < 0xF0 then match r with
      | b :: c :: r => do return (← three? a b c) :: (← decode? r)
      | _ => none
    else match r with
      | b :: c :: d :: r => do return (← four? a b c d) :: (← decode? r)
      | _ => none

end Utf8

end SlidingCache
