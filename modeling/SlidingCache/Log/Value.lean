import SlidingCache.Json.Printer
import SlidingCache.Misfit
import SlidingCache.Time.Instant

/-!
# Values in log records

What a message can be filled with and what a record can carry besides its message: JSON values, and
instants, durations and bytes. `LogValue.text` is a value as a message shows it,
`LogValue.description` as it stands inside another value, and `LogValue.toJson` in a JSON line.
-/

namespace SlidingCache

inductive LogValue where
  | null
  | bool (b : Bool)
  | int (n : Int)
  | float (negative : Bool) (magnitude : Binary64)
  | str (t : Text)
  | arr (elements : List LogValue)
  | obj (fields : List (Text × LogValue))
  | instant (i : Instant)
  | duration (d : Duration)
  | bytes (b : Bytes)
  deriving Inhabited

namespace LogValue

/-! ## In messages -/

mutual

/-- The value inside another one. -/
def description : LogValue → Text
  | .null => "None"
  | .bool true => "True"
  | .bool false => "False"
  | .int n => Text.ofInt n
  | .float negative b => Json.floatText Json.messageNotation negative b
  | .str t => t.quoted
  | .arr elements => ("[" : Text) ++ Text.join ", " (descriptions elements) ++ ("]" : Text)
  | .obj fields => ("\x7b" : Text) ++ Text.join ", " (fieldDescriptions fields) ++ ("\x7d" : Text)
  | .instant i => i.description
  | .duration d => d.description
  | .bytes b => Bytes.quoted b

def descriptions : List LogValue → List Text
  | [] => []
  | v :: r => v.description :: descriptions r

def fieldDescriptions : List (Text × LogValue) → List Text
  | [] => []
  | (n, v) :: r => (n.quoted ++ (": " : Text) ++ v.description) :: fieldDescriptions r

end

/-- The value on its own: a string without quotes, an instant and a duration in their written
forms. -/
def text : LogValue → Text
  | str t => t
  | instant i => i.spacedText
  | duration d => d.clock
  | v => v.description

/-- Several values in parentheses. -/
def tupleText (vs : List LogValue) : Text :=
  ("(" : Text) ++ Text.join ", " (vs.map description) ++ (")" : Text)

/-- What messages call the kind of a value. -/
def kindName : LogValue → Text
  | null => "NoneType"
  | bool _ => "bool"
  | int _ => "int"
  | float .. => "float"
  | str _ => "str"
  | arr _ => "list"
  | obj _ => "dict"
  | instant _ => "datetime.datetime"
  | duration _ => "datetime.timedelta"
  | bytes _ => "bytes"

/-- An integer, or a truth value as one. -/
def int? : LogValue → Option Int
  | int n => some n
  | bool b => some (if b then 1 else 0)
  | _ => none

/-- Whether a value counts as something: all do but `null`, `false`, zero and what is empty. -/
def holds : LogValue → Bool
  | null => false
  | bool b => b
  | int n => n ≠ 0
  | float _ magnitude => magnitude.mantissa ≠ 0
  | str t => !t.isEmpty
  | arr elements => !elements.isEmpty
  | obj fields => !fields.isEmpty
  | instant _ => true
  | duration d => d.us ≠ 0
  | bytes b => !b.isEmpty

end LogValue

/-! ## Parts -/

namespace LogValue

/-- The part of a value under a number: an element, a character or an octet. -/
def part (number : Nat) : LogValue → Except Misfit LogValue
  | arr elements => (elements[number]?).elim (.error (.tooShort "list")) .ok
  | str t => (t[number]?).elim (.error (.tooShort "string")) fun c => .ok (str [c])
  | bytes b => (b[number]?).elim (.error (.tooShort [])) fun n => .ok (int n.toNat)
  | obj _ => .error (.noNumber number)
  | v => .error (.noParts v.kindName)

/-- The integer that a number is, if it is one. -/
def whole? : LogValue → Option Int
  | float negative b => b.whole?.map fun n => if negative then -n else n
  | v => v.int?

def isNumber : LogValue → Bool
  | int _ | bool _ | float .. => true
  | _ => false

/-! ## In JSON -/

/-- An offset in hours and minutes: rounded to the nearest minute, a half away from zero, and after
its parts have been taken, so that it may show sixty minutes. -/
def offsetText (o : Offset) : Text :=
  let seconds := o.us / usPerSecond
  let two (n : Nat) := Text.padded 2 (Text.ofNat n)
  if seconds % 86400 = 0 then "+00:00"
  else
    let n := seconds.natAbs
    (if seconds < 0 then ("-" : Text) else ("+" : Text)) ++ two (n / 3600) ++ (":" : Text)
      ++ two (n / 60 % 60 + if 30 ≤ n % 60 then 1 else 0)

/-- An instant as JSON text: its reading, and its offset if it has one. -/
def instantText (i : Instant) : Text :=
  (⟨i.reading, none, i.inCalendar⟩ : Instant).toText ++ (i.offset.map offsetText).getD []

mutual

/-- The value in a JSON line: durations and bytes as their text. -/
def toJson : LogValue → Json
  | .null => .null
  | .bool b => .bool b
  | .int n => .int n
  | .float negative b => .float negative b
  | .str t => .str t
  | .arr elements => .arr (toJsons elements)
  | .obj fields => .obj (fieldsToJson fields)
  | .instant i => .str (instantText i)
  | .duration d => .str d.clock
  | .bytes b => .str (Bytes.quoted b)

def toJsons : List LogValue → List Json
  | [] => []
  | v :: r => v.toJson :: toJsons r

def fieldsToJson : List (Text × LogValue) → List (Text × Json)
  | [] => []
  | (n, v) :: r => (n, v.toJson) :: fieldsToJson r

end

end LogValue

end SlidingCache
