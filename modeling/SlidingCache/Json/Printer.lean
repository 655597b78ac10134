import SlidingCache.Json.Token

/-!
# Writing JSON

Compact text without blanks. A value is refused if a string in it holds a surrogate, an integer in
it needs more than 64 bits, or containers are nested deeper than `Json.maxNesting`, where an empty
array counts for nothing; the first fault on the way through the value is reported.
-/

namespace SlidingCache.Json

inductive WriteFault where
  | surrogate
  | integerTooLarge
  | tooDeep
  deriving DecidableEq

def WriteFault.message : WriteFault → Text
  | surrogate => "str is not valid UTF-8: surrogates not allowed"
  | integerTooLarge => "Integer exceeds 64-bit range"
  | tooDeep => "Recursion limit reached"

def maxNesting : Nat := 254

def leastInteger : Int := -9223372036854775808

def greatestInteger : Int := 18446744073709551615

/-- A string of characters only. -/
def strToken (t : Text) : Except WriteFault Token :=
  if t.any CodePoint.isSurrogate then .error .surrogate else .ok (.str t)

mutual

/-- The tokens of a value inside `depth` containers. -/
def tokens (depth : Nat) : Json → Except WriteFault (List Token)
  | .null => .ok [.null]
  | .bool b => .ok [.bool b]
  | .int n =>
    if leastInteger ≤ n ∧ n ≤ greatestInteger then .ok [.int n] else .error .integerTooLarge
  | .float negative b => .ok [.float negative b]
  | .str t => return [← strToken t]
  | .arr elements =>
    if elements.isEmpty ∨ depth < maxNesting then
      return .beginArray :: (← elementTokens (depth + 1) false elements)
    else .error .tooDeep
  | .obj fields =>
    if depth < maxNesting then return .beginObject :: (← fieldTokens (depth + 1) false fields)
    else .error .tooDeep

/-- The tokens of the elements and the end of the array; a comma goes before an element that
`follows` another. -/
def elementTokens (depth : Nat) (follows : Bool) : List Json → Except WriteFault (List Token)
  | [] => .ok [.endArray]
  | v :: r => do
    let first ← v.tokens depth
    let rest ← elementTokens depth true r
    return (if follows then [.comma] else []) ++ first ++ rest

@[inherit_doc elementTokens]
def fieldTokens (depth : Nat) (follows : Bool) :
    List (Text × Json) → Except WriteFault (List Token)
  | [] => .ok [.endObject]
  | (n, v) :: r => do
    let name ← strToken n
    let first ← v.tokens depth
    let rest ← fieldTokens depth true r
    return (if follows then [.comma] else []) ++ name :: .colon :: first ++ rest

end

def toText (v : Json) : Except WriteFault Text :=
  return (← v.tokens 0).flatMap Token.text

end SlidingCache.Json
