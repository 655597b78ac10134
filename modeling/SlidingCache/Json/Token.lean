import SlidingCache.Json.Value

/-!
# JSON tokens

The words of JSON text. `Json.Token.text` writes one; `Json.Token.ofText?` cuts text into them, one
character at a time. Strings are strict: no control characters, only the escapes of the standard,
and surrogates only as escaped pairs, which are put together. An integer below `-2 ^ 63` or from
`2 ^ 64` on is read as a 53-bit number, and a number beyond the greatest of these is refused.
-/

namespace SlidingCache.Json

inductive Token where
  | beginObject
  | endObject
  | beginArray
  | endArray
  | colon
  | comma
  | null
  | bool (b : Bool)
  | int (n : Int)
  | float (negative : Bool) (magnitude : Binary64)
  | str (t : Text)
  deriving DecidableEq

namespace Token

/-! ## Writing -/

def quoteMark : CodePoint := CodePoint.ofChar '"'

def backslash : CodePoint := CodePoint.ofChar '\\'

/-- A character inside a string: quote, backslash and control characters are escaped, the latter by
a letter where there is one and by number elsewhere. -/
def escapedChar (c : CodePoint) : Text :=
  if c = quoteMark then "\\\""
  else if c = backslash then "\\\\"
  else if c.val = 8 then "\\b"
  else if c.val = 9 then "\\t"
  else if c.val = 10 then "\\n"
  else if c.val = 12 then "\\f"
  else if c.val = 13 then "\\r"
  else if c.val < 0x20 then ("\\u" : Text) ++ Text.hex 4 c.val
  else [c]

/-- In JSON text a number has an exponent below `1e-5` and from `1e16` on. -/
def jsonNotation : DecimalNotation := ⟨-5, 16, 1⟩

def text : Token → Text
  | beginObject => "\x7b"
  | endObject => "\x7d"
  | beginArray => "["
  | endArray => "]"
  | colon => ":"
  | comma => ","
  | null => "null"
  | bool true => "true"
  | bool false => "false"
  | int n => Text.ofInt n
  | float negative b => floatText jsonNotation negative b
  | str t => quoteMark :: t.flatMap escapedChar ++ [quoteMark]

/-! ## Numbers -/

/-- The number of an integral numeral: an integer where 64 bits hold it. -/
def integer? (negative : Bool) (n : Nat) : Option Token :=
  if (if negative then n ≤ Nat.pow 2 63 else n < Nat.pow 2 64) then
    some (int (if negative then -n else n))
  else (Binary64.ofDecimal? n 0).map (float negative)

/-- Sign and digits of an exponent. -/
def exponent? (t : Text) : Option Int :=
  match t with
  | [] => none
  | c :: r =>
    if c = CodePoint.ofChar '-' then (Text.natOf? r).map fun n => -(n : Int)
    else if c = CodePoint.ofChar '+' then (Text.natOf? r).map fun n => (n : Int)
    else (Text.natOf? t).map fun n => (n : Int)

def isExponentMark (c : CodePoint) : Bool := c = CodePoint.ofChar 'e' ∨ c = CodePoint.ofChar 'E'

/-- The value of digits before and after the point and an exponent. -/
def decimal? (negative : Bool) (whole places : Text) (exponent : Int) : Option Token :=
  (Binary64.ofDecimal? ((whole ++ places).foldl Text.pushDigit 0) (exponent - places.length)).map
    (float negative)

/-- A number without its sign. -/
def unsigned? (negative : Bool) (t : Text) : Option Token := do
  let whole := t.takeWhile CodePoint.isDigit
  let rest := t.dropWhile CodePoint.isDigit
  if whole.isEmpty ∨ (1 < whole.length ∧ whole.head? = some (CodePoint.ofChar '0')) then none
  match rest with
  | [] => integer? negative (whole.foldl Text.pushDigit 0)
  | c :: r =>
    if c = CodePoint.ofChar '.' then
      let places := r.takeWhile CodePoint.isDigit
      if places.isEmpty then none
      match r.dropWhile CodePoint.isDigit with
      | [] => decimal? negative whole places 0
      | e :: r => if isExponentMark e then decimal? negative whole places (← exponent? r) else none
    else if isExponentMark c then decimal? negative whole [] (← exponent? r)
    else none

/-- A word outside strings: a literal or a number. -/
def ofWord? (t : Text) : Option Token :=
  if t = ("null" : Text) then some .null
  else if t = ("true" : Text) then some (.bool true)
  else if t = ("false" : Text) then some (.bool false)
  else match t with
    | [] => none
    | c :: r => if c = CodePoint.ofChar '-' then unsigned? true r else unsigned? false t

/-! ## Cutting text -/

/-- Where the cutting stands. The characters so far are kept last one first. -/
inductive Cut where
  /-- Between tokens. -/
  | gap
  | word (done : Text)
  | inside (done : Text)
  /-- After a backslash. -/
  | escape (done : Text)
  /-- In the digits of an escaped unit; `high` is the unit before it if that needs a second one. -/
  | unit (done : Text) (high : Option Nat) (digits value : Nat)
  /-- After a first unit of a pair. -/
  | pairBackslash (done : Text) (high : Nat)
  | pairMark (done : Text) (high : Nat)

def isBlank (c : CodePoint) : Bool := c.val = 0x20 ∨ c.val = 9 ∨ c.val = 10 ∨ c.val = 13

def isWordChar (c : CodePoint) : Bool :=
  c.isAlphanumeric || c = CodePoint.ofChar '-' || c = CodePoint.ofChar '+'
    || c = CodePoint.ofChar '.'

def punctuation? (c : CodePoint) : Option Token :=
  if c = CodePoint.ofChar '\x7b' then some beginObject
  else if c = CodePoint.ofChar '\x7d' then some endObject
  else if c = CodePoint.ofChar '[' then some beginArray
  else if c = CodePoint.ofChar ']' then some endArray
  else if c = CodePoint.ofChar ':' then some colon
  else if c = CodePoint.ofChar ',' then some comma
  else none

/-- The character of a one-letter escape. -/
def escapeLetter? (c : CodePoint) : Option CodePoint :=
  if c = quoteMark ∨ c = backslash ∨ c = CodePoint.ofChar '/' then some c
  else if c = CodePoint.ofChar 'b' then some (CodePoint.ofChar '\x08')
  else if c = CodePoint.ofChar 'f' then some (CodePoint.ofChar '\x0c')
  else if c = CodePoint.ofChar 'n' then some (CodePoint.ofChar '\n')
  else if c = CodePoint.ofChar 'r' then some (CodePoint.ofChar '\r')
  else if c = CodePoint.ofChar 't' then some (CodePoint.ofChar '\t')
  else none

/-- After a complete unit: a character, the second half of a pair, or the first. -/
def endUnit? (done : Text) (high : Option Nat) (value : Nat) : Option Cut :=
  match high with
  | some h =>
    if 0xDC00 ≤ value ∧ value ≤ 0xDFFF then
      let n := 0x10000 + (h - 0xD800) * 0x400 + (value - 0xDC00)
      (CodePoint.ofNat? n).map (.inside <| · :: done)
    else none
  | none =>
    if 0xD800 ≤ value ∧ value ≤ 0xDBFF then some (.pairBackslash done value)
    else if 0xDC00 ≤ value ∧ value ≤ 0xDFFF then none
    else (CodePoint.ofNat? value).map (.inside <| · :: done)

/-- A character between tokens. -/
def inGap? (c : CodePoint) : Option (List Token × Cut) :=
  if isBlank c then some ([], .gap)
  else if c = quoteMark then some ([], .inside [])
  else if isWordChar c then some ([], .word [c])
  else (punctuation? c).map ([·], .gap)

/-- One character: the tokens that it completes, and where the cutting stands after it. -/
def Cut.next? : Cut → CodePoint → Option (List Token × Cut)
  | .gap, c => inGap? c
  | .word done, c =>
    if isWordChar c then some ([], .word (c :: done))
    else do
      let token ← ofWord? done.reverse
      let (tokens, cut) ← inGap? c
      return (token :: tokens, cut)
  | .inside done, c =>
    if c = quoteMark then some ([str done.reverse], .gap)
    else if c = backslash then some ([], .escape done)
    else if c.val < 0x20 then none
    else some ([], .inside (c :: done))
  | .escape done, c =>
    if c = CodePoint.ofChar 'u' then some ([], .unit done none 0 0)
    else (escapeLetter? c).map fun e => ([], .inside (e :: done))
  | .unit done high digits value, c => do
    let d ← c.hexDigit?
    let value := value * 16 + d
    if digits < 3 then return ([], .unit done high (digits + 1) value)
    else return ([], ← endUnit? done high value)
  | .pairBackslash done high, c => if c = backslash then some ([], .pairMark done high) else none
  | .pairMark done high, c =>
    if c = CodePoint.ofChar 'u' then some ([], .unit done (some high) 0 0) else none

/-- The tokens at the end of the text. -/
def Cut.finish? : Cut → Option (List Token)
  | .gap => some []
  | .word done => (ofWord? done.reverse).map ([·])
  | _ => none

def cut? (cut : Cut) : Text → Option (List Token)
  | [] => cut.finish?
  | c :: r => do
    let (tokens, cut) ← cut.next? c
    return tokens ++ (← cut? cut r)

def ofText? (t : Text) : Option (List Token) := cut? .gap t

end Token

end SlidingCache.Json
