import SlidingCache.Key.Rule
import SlidingCache.Text.Percent

/-!
# Percent keys

The key encoding that leaves keys of letters, digits and `/_-.` alone, unless a period stands at
an end, and writes every other key octet by octet in UTF-8. An octet that is no letter, digit or
one of `-_.` is escaped behind the sign `=`, and so is a period at either end. `=` is not among
the characters left alone, so a key that holds it was escaped.
-/

namespace SlidingCache.PercentKey

def marker : CodePoint := CodePoint.ofChar '='

/-- A character that an escaped key shows as itself. -/
def isUnreserved (c : CodePoint) : Bool :=
  c.isAlphanumeric || c == CodePoint.ofChar '-' || c == CodePoint.ofChar '_' || c == dot

/-- Whether a key is its own encoding. -/
def isPlain (raw : Text) : Bool :=
  !raw.isEmpty && !raw.isDotBounded
    && raw.all fun c => isUnreserved c || c == CodePoint.ofChar '/'

/-- An octet inside the key. -/
def octet (b : UInt8) : Text :=
  if isUnreserved (CodePoint.ofByte b) then [CodePoint.ofByte b] else Percent.escape marker b

/-- An octet at an end of the key, where a period does not stand. -/
def endOctet (b : UInt8) : Text :=
  if CodePoint.ofByte b = dot then Percent.escape marker b else octet b

/-- All octets, the last one as an end. -/
def octets : Bytes → Text
  | [] => []
  | [b] => endOctet b
  | b :: r => octet b ++ octets r

/-- The octets of a whole key. -/
def escaped : Bytes → Text
  | b :: c :: r => endOctet b ++ octets (c :: r)
  | r => octets r

def encode (raw : Text) : Except InvalidKey Text :=
  if raw.isEmpty then .error ⟨raw, .emptyKey⟩
  else if isPlain raw then .ok raw
  else match raw.utf8? with
    | none => .error ⟨raw, .notUtf8⟩
    | some bytes => .ok (escaped bytes)

/-- Reads a key back. In a key that holds `=`, the percent sign is a marker as well. -/
def decode (key : Text) : Except InvalidKey Text :=
  if key.isEmpty then .error ⟨key, .emptyKey⟩
  else if marker ∉ key then .ok key
  else match Percent.unescape? (fun c => c = marker ∨ c = CodePoint.ofChar '%') key with
    | none => .error ⟨key, .escapesNotUtf8⟩
    | some raw => .ok raw

end SlidingCache.PercentKey
