import SlidingCache.Number.Notation
import SlidingCache.Text.Quoted

/-!
# JSON values

Values with integers and 53-bit numbers apart and the fields of an object in order. `Json.put` sets
a field where it stands or adds it at the end, so a later value replaces an earlier one in its
place. `Json.description` is the form in which a value stands in a message.
-/

namespace SlidingCache

inductive Json where
  | null
  | bool (b : Bool)
  | int (n : Int)
  | float (negative : Bool) (magnitude : Binary64)
  | str (t : Text)
  | arr (elements : List Json)
  | obj (fields : List (Text × Json))
  deriving Inhabited

namespace Json

/-- The fields with one of them set. -/
def put (name : Text) (value : Json) : List (Text × Json) → List (Text × Json)
  | [] => [(name, value)]
  | (n, v) :: r => if n = name then (n, value) :: r else (n, v) :: put name value r

def get? (name : Text) : List (Text × Json) → Option Json
  | [] => none
  | (n, v) :: r => if n = name then some v else get? name r

/-- Whether a value counts as yes: everything but `null`, `false`, zero and what is empty. -/
def holds : Json → Bool
  | .null => false
  | .bool b => b
  | .int n => n ≠ 0
  | .float _ magnitude => magnitude.mantissa ≠ 0
  | .str t => !t.isEmpty
  | .arr elements => !elements.isEmpty
  | .obj fields => !fields.isEmpty

/-- In messages a number has an exponent below `1e-4` and from `1e16` on, with sign and at least two
digits. -/
def messageNotation : DecimalNotation := ⟨-4, 16, 2⟩

def floatText (style : DecimalNotation) (negative : Bool) (b : Binary64) : Text :=
  (if negative then ("-" : Text) else []) ++ b.shortest.write style

mutual

/-- The value as it stands in a message. -/
def description : Json → Text
  | .null => "None"
  | .bool true => "True"
  | .bool false => "False"
  | .int n => Text.ofInt n
  | .float negative b => floatText messageNotation negative b
  | .str t => t.quoted
  | .arr elements => ("[" : Text) ++ Text.join ", " (descriptions elements) ++ ("]" : Text)
  | .obj fields => ("\x7b" : Text) ++ Text.join ", " (fieldDescriptions fields) ++ ("\x7d" : Text)

def descriptions : List Json → List Text
  | [] => []
  | v :: r => v.description :: descriptions r

def fieldDescriptions : List (Text × Json) → List Text
  | [] => []
  | (n, v) :: r => (n.quoted ++ (": " : Text) ++ v.description) :: fieldDescriptions r

end

/-- The value on its own: a string without quotes. -/
def text : Json → Text
  | .str t => t
  | v => v.description

/-- What messages call the kind of a value. -/
def kindName : Json → Text
  | .null => "NoneType"
  | .bool _ => "bool"
  | .int _ => "int"
  | .float .. => "float"
  | .str _ => "str"
  | .arr _ => "list"
  | .obj _ => "dict"

end Json

end SlidingCache
