import SlidingCache.Json.Token
import SlidingCache.Text.Utf8

/-!
# Reading JSON

`Json.ofTokens?` builds a value from tokens with a stack of the containers that are still open, at
most `Json.maxOpen` of them. Of two fields of one name the later value stays, in the earlier place.
`Json.ofBytes?` reads UTF-8.
-/

namespace SlidingCache.Json

/-- A container that is still open: its elements so far, last one first, or its fields so far and
the name of the next one. -/
inductive Frame where
  | array (done : List Json)
  | object (done : List (Text × Json)) (name : Text)

/-- What is expected next. -/
inductive Reading where
  | value (stack : List Frame)
  /-- A value, or the end of an array that is still empty. -/
  | element (stack : List Frame)
  /-- The name of a field of the object with these fields, or the end of it if `first`. -/
  | fieldName (stack : List Frame) (fields : List (Text × Json)) (first : Bool)
  | colon (stack : List Frame) (fields : List (Text × Json)) (name : Text)
  /-- A comma or the end of the innermost container. -/
  | separator (stack : List Frame)
  | finished (value : Json)

def maxOpen : Nat := 1024

/-- Puts a complete value into the innermost container. -/
def Reading.after (value : Json) : List Frame → Reading
  | [] => .finished value
  | .array done :: stack => .separator (.array (value :: done) :: stack)
  | .object done name :: stack => .separator (.object (put name value done) name :: stack)

/-- The first token of a value. -/
def Reading.ofFirst? (stack : List Frame) : Token → Option Reading
  | .null => some (after .null stack)
  | .bool b => some (after (.bool b) stack)
  | .int n => some (after (.int n) stack)
  | .float negative b => some (after (.float negative b) stack)
  | .str t => some (after (.str t) stack)
  | .beginArray => if stack.length < maxOpen then some (.element (.array [] :: stack)) else none
  | .beginObject => if stack.length < maxOpen then some (.fieldName stack [] true) else none
  | _ => none

def Reading.next? : Reading → Token → Option Reading
  | .value stack, token => ofFirst? stack token
  | .element (.array _ :: stack), .endArray => some (after (.arr []) stack)
  | .element stack, token => ofFirst? stack token
  | .fieldName stack fields _, .str name => some (.colon stack fields name)
  | .fieldName stack _ true, .endObject => some (after (.obj []) stack)
  | .colon stack fields name, .colon => some (.value (.object fields name :: stack))
  | .separator (.array done :: stack), .comma => some (.value (.array done :: stack))
  | .separator (.array done :: stack), .endArray => some (after (.arr done.reverse) stack)
  | .separator (.object done _ :: stack), .comma => some (.fieldName stack done false)
  | .separator (.object done _ :: stack), .endObject => some (after (.obj done) stack)
  | _, _ => none

def Reading.run? (reading : Reading) : List Token → Option Reading
  | [] => some reading
  | token :: r => do (← reading.next? token).run? r

def ofTokens? (tokens : List Token) : Option Json :=
  match Reading.run? (.value []) tokens with
  | some (.finished value) => some value
  | _ => none

def ofText? (t : Text) : Option Json := do ofTokens? (← Token.ofText? t)

def ofBytes? (b : Bytes) : Option Json := do ofText? (← Utf8.decode? b)

end SlidingCache.Json
