import SlidingCache.Json.Printer
import SlidingCache.Json.Reader
import SlidingCache.Time.Iso8601

/-!
# Stored entries

What a store holds for a key: a line with a JSON object, and after its line feed the payload as it
is. The object has the absolute bound in UTC under `absexp` and the sliding window in microseconds
under `sldexp`; what an entry lacks is left out.

* `Entry.encode` fails only for a bound or a window that the header cannot hold;
* `Entry.decode` passes over fields it does not know and reads `null` as absence.
-/

namespace SlidingCache

structure Entry where
  payload : Bytes
  absolute : Option Instant := none
  sliding : Option Duration := none
  deriving DecidableEq, Inhabited

/-- Why a stored value cannot be read. -/
inductive CorruptEntry where
  | notTerminated
  | notJson
  | notObject
  | invalidField (name : Text) (value : Json)
  | noOffset (text : Text)
  | windowTooLong (us : Int)
  /-- A fault in words. -/
  | stated (message : Text)

inductive EncodeFault where
  | time (fault : TimeFault)
  | header (fault : Json.WriteFault)
  deriving DecidableEq

def EncodeFault.message : EncodeFault → Text
  | time fault => fault.message
  | header fault => fault.message

namespace Entry

def lineFeed : UInt8 := 0x0A

def absoluteField : Text := "absexp"

def slidingField : Text := "sldexp"

/-- Whether the absolute bound has passed; the bound itself has not. -/
def isExpired (e : Entry) (now : Instant) : Except TimeFault Bool :=
  match e.absolute with
  | none => .ok false
  | some bound => return (← now.compare? bound) == .gt

/-! ## Writing -/

def headerFields (e : Entry) : Except TimeFault (List (Text × Json)) := do
  let absolute ← e.absolute.mapM Instant.inUtc
  return (absolute.map fun i => (absoluteField, Json.str i.toText)).toList
    ++ (e.sliding.map fun d => (slidingField, Json.int d.us)).toList

def encode (e : Entry) : Except EncodeFault Bytes := do
  let fields ← (e.headerFields).mapError .time
  let header ← (Json.obj fields).toText.mapError .header
  return header.flatMap CodePoint.octets ++ lineFeed :: e.payload

/-! ## Reading -/

/-- The bytes before and after the first line feed. -/
def splitLine (data : Bytes) : Option (Bytes × Bytes) :=
  match data.dropWhile (· ≠ lineFeed) with
  | [] => none
  | _ :: payload => some (data.takeWhile (· ≠ lineFeed), payload)

def readAbsolute : Option Json → Except CorruptEntry (Option Instant)
  | none | some .null => .ok none
  | some (.str t) =>
    match Instant.ofText? t with
    | none => .error (.invalidField absoluteField (.str t))
    | some i => if i.isAware then .ok (some i) else .error (.noOffset t)
  | some v => .error (.invalidField absoluteField v)

def readSliding : Option Json → Except CorruptEntry (Option Duration)
  | none | some .null => .ok none
  | some (.int n) =>
    match Duration.ofMicroseconds n with
    | .ok d => .ok (some d)
    | .error _ => .error (.windowTooLong n)
  | some v => .error (.invalidField slidingField v)

def decode (data : Bytes) : Except CorruptEntry Entry := do
  let some (header, payload) := splitLine data | throw .notTerminated
  let some value := Json.ofBytes? header | throw .notJson
  let .obj fields := value | throw .notObject
  let absolute ← readAbsolute (Json.get? absoluteField fields)
  let sliding ← readSliding (Json.get? slidingField fields)
  return ⟨payload, absolute, sliding⟩

end Entry

def CorruptEntry.message : CorruptEntry → Text
  | notTerminated => "Cache entry header is not terminated"
  | notJson => "Cache entry header is not valid JSON"
  | notObject => "Cache entry header must be a JSON object"
  | invalidField name value =>
    ("Invalid " : Text) ++ name ++ (" value: " : Text) ++ value.description
  | noOffset text =>
    Entry.absoluteField ++ (" has no UTC offset: " : Text) ++ text.quoted
  | windowTooLong us => Entry.slidingField ++ (" out of range: " : Text) ++ Text.ofInt us
  | stated message => message

end SlidingCache
