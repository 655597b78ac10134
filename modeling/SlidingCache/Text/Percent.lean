import SlidingCache.Text.Utf8

/-!
# Escaped octets

Reading text in which an octet stands as a marker and two hexadecimal digits. A marker without two
digits after it stands for the percent sign. ASCII characters stand for their octets, and the
octets of each longest run of ASCII characters are read together as UTF-8; other characters stand
for themselves, so a sequence of octets cannot reach across one.
-/

namespace SlidingCache.Percent

/-- What a stretch of text stands for. -/
inductive Piece where
  | octet (b : UInt8)
  | verbatim (c : CodePoint)
  deriving DecidableEq

def percentSign : UInt8 := 0x25

/-- One character outside an escape. -/
def Piece.ofChar (isMarker : CodePoint → Bool) (c : CodePoint) : Piece :=
  if isMarker c then .octet percentSign
  else if c.isAscii then .octet (UInt8.ofNat c.val)
  else .verbatim c

/-- The octet of a marker and two digits. -/
def octet? (isMarker : CodePoint → Bool) (m h l : CodePoint) : Option UInt8 := do
  if !isMarker m then none
  return UInt8.ofNat ((← h.hexDigit?) * 16 + (← l.hexDigit?))

def pieces (isMarker : CodePoint → Bool) : Text → List Piece
  | m :: h :: l :: r =>
    match octet? isMarker m h l with
    | some b => .octet b :: pieces isMarker r
    | none => .ofChar isMarker m :: pieces isMarker (h :: l :: r)
  | m :: r => .ofChar isMarker m :: pieces isMarker r
  | [] => []

/-- The text of the pieces; `run` holds the octets since the last verbatim character, last one
first. -/
def assemble? (run : Bytes) : List Piece → Option Text
  | [] => Utf8.decode? run.reverse
  | .octet b :: r => assemble? (b :: run) r
  | .verbatim c :: r => do return (← Utf8.decode? run.reverse) ++ c :: (← assemble? [] r)

def unescape? (isMarker : CodePoint → Bool) (t : Text) : Option Text :=
  assemble? [] (pieces isMarker t)

/-- An octet as marker and two digits in upper case. -/
def escape (marker : CodePoint) (b : UInt8) : Text :=
  let digit (d : Nat) : CodePoint :=
    if d < 10 then ⟨0x30 + d % 10, by omega⟩ else ⟨0x37 + d % 16, by omega⟩
  [marker, digit (b.toNat / 16), digit (b.toNat % 16)]

end SlidingCache.Percent
