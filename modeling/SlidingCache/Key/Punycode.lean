import SlidingCache.Key.Rule
import SlidingCache.Text.Punycode

/-!
# Punycode keys

The key encoding that works on the segments between periods. A segment that is empty, begins with
`xn--` or holds a character that no segment of a store key may hold is written as `xn--` and the
Punycode of the segment; every other one stays. A period at either end of the key becomes a
segment `xn--` of its own.

Punycode leaves ASCII alone, so the ASCII characters that the store refuses are moved up to
U+2800 first (`shift`). Characters that live there already, and the mark U+28FF itself, are put
behind the mark, so the move can be undone (`unshift`).
-/

namespace SlidingCache.PunycodeKey

/-- The mark of a encoded segment. -/
def tag : Text := "xn--"

/-! ## The move out of ASCII -/

def shiftBase : Nat := 0x2800

/-- Stands before a character that was not moved. -/
def literalMark : CodePoint := ⟨0x28FF, by decide⟩

/-- Whether moved characters live at this place. -/
def isShifted (c : CodePoint) : Bool := shiftBase ≤ c.val && c.val < shiftBase + 0x80

def shiftChar (c : CodePoint) : Text :=
  if isShifted c || c == literalMark then [literalMark, c]
  else if h : c.isAscii ∧ !StoreKey.isSegmentChar c then
    [⟨shiftBase + c.val, by
      have := h.1; simp only [CodePoint.isAscii, decide_eq_true_eq] at this
      simp only [shiftBase]; omega⟩]
  else [c]

def shift (t : Text) : Text := t.flatMap shiftChar

def unshiftChar (c : CodePoint) : CodePoint :=
  if isShifted c then ⟨c.val - shiftBase, by have := c.lt; omega⟩ else c

/-- Undoes `shift`; a mark at the end is dropped. -/
def unshift : Text → Text
  | [] => []
  | m :: c :: r => if m = literalMark then c :: unshift r else unshiftChar m :: unshift (c :: r)
  | [c] => if c = literalMark then [] else [unshiftChar c]

/-! ## Segments -/

/-- Whether a segment is written as it is. -/
def isPlainSegment (segment : Text) : Bool :=
  !segment.isEmpty && segment.all StoreKey.isSegmentChar && !segment.startsWith tag

def encodeSegment (segment : Text) : Text :=
  if isPlainSegment segment then segment else tag ++ Punycode.encode (shift segment)

def decodeSegment (key segment : Text) : Except InvalidKey Text :=
  if segment.startsWith tag then
    match Punycode.decode? (segment.drop tag.length) with
    | some t => .ok (unshift t)
    | none => .error ⟨key, .malformedSegment segment⟩
  else .ok segment

/-! ## Keys -/

/-- Whether a key is its own encoding. -/
def isPlain (raw : Text) : Bool :=
  StoreKey.fault? raw == none && (raw.pieces dot).all (!·.startsWith tag)

/-- A key as a period at the start, a middle part and a period at the end; a lone period is one
at the start. -/
def splitEnds (raw : Text) : Bool × Text × Bool :=
  let lead := raw.head? == some dot
  let rest := if lead then raw.drop 1 else raw
  let trail := rest.getLast? == some dot
  (lead, if trail then rest.dropLast else rest, trail)

def encode (raw : Text) : Except InvalidKey Text :=
  if raw.isEmpty then .error ⟨raw, .emptyKey⟩
  else if isPlain raw then .ok raw
  else
    let (lead, middle, trail) := splitEnds raw
    let segments := (middle.pieces dot).map encodeSegment
    .ok (Text.join [dot] ((if lead then [tag] else []) ++ segments ++ if trail then [tag] else []))

/-- The segments of a key without the ones that stand for a period at an end, and which of the two
there were. The last segment left is never taken for one. -/
def stripEnds (segments : List Text) : Bool × List Text × Bool :=
  let lead := 1 < segments.length && segments.head? == some tag
  let rest := if lead then segments.drop 1 else segments
  let trail := 1 < rest.length && rest.getLast? == some tag
  (lead, if trail then rest.dropLast else rest, trail)

def decode (key : Text) : Except InvalidKey Text := do
  if key.isEmpty then throw ⟨key, .emptyKey⟩
  let (lead, segments, trail) := stripEnds (key.pieces dot)
  let raw := Text.join [dot] (← segments.mapM (decodeSegment key))
  return (if lead then [dot] else []) ++ raw ++ if trail then [dot] else []

end SlidingCache.PunycodeKey
