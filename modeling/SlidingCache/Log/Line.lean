import SlidingCache.Json.Printer
import SlidingCache.Log.Context
import SlidingCache.Log.Record

/-!
# Log lines

The two forms in which records are written: as a JSON object (`JsonLine`), and as a line to be read
(`ConsoleLine`). Both add the operation and key in whose course the record was made.
-/

namespace SlidingCache

/-! ## JSON -/

namespace JsonLine

def textOrNull (t : Option Text) : LogValue := (t.map LogValue.str).getD .null

/-- The object that tells of a failure. -/
def summary (f : Failure) : LogValue :=
  .obj [("type", textOrNull f.kind), ("message", textOrNull f.message),
    ("traceback", .str f.report)]

/-- The object of a record: its parts, the context, the failure and its own fields. A later field
replaces an earlier one of the same name in its place. -/
def fields (r : LogRecord) (message : Text) (failure : Option Failure)
    (context : LogContext LogValue) (now : Instant) : Table Text LogValue :=
  let base : Table Text LogValue :=
    [("timestamp", .str now.toText), ("level", r.level), ("logger", r.speaker),
      ("message", .str message), ("module", r.moduleName), ("function", r.function),
      ("line", r.line)]
  let more := context.parts ++ (failure.map fun f => (("exception" : Text), summary f)).toList
    ++ r.shown
  more.foldl (fun fields (name, value) => fields.put name value) base

def format (r : LogRecord) (context : LogContext LogValue) (now : Instant) :
    Except LineFault Text := do
  let now ← now.inUtc.mapError .time
  let message ← r.text
  let failure ← r.reported.failure?.mapError .misfit
  (LogValue.obj (fields r message failure context now)).toJson.toText.mapError .json

end JsonLine

/-! ## Console -/

namespace ConsoleLine

def escape : Text := [⟨0x1B, by decide⟩]

/-- The terminal's number for the colour of a severity. -/
def colors : List (Text × Text) :=
  [("DEBUG", "36"), ("INFO", "32"), ("WARNING", "33"), ("ERROR", "31"), ("CRITICAL", "35")]

/-- What a terminal reads as a change of colour. -/
def sequence (number : Text) : Text := escape ++ ("[" : Text) ++ number ++ ("m" : Text)

def colored (level : LogValue) : Except Misfit LogValue :=
  match level with
  | .arr _ | .obj _ => .error (.unhashable level.kindName)
  | _ =>
    let color := match level with
      | .str t => ((colors.find? (·.1 = t)).map fun row => sequence row.2).getD []
      | _ => []
    .ok (.str (color ++ level.text ++ sequence "0"))

/-- A value in a column of eight: text to the left, numbers to the right. -/
def column (level : LogValue) : Except Misfit Text :=
  match level with
  | .str t => .ok (t.padRight 8)
  | .int _ | .float .. => .ok (({ width := 8 } : Template.Place).set level.text)
  | .bool b => .ok (({ width := 8 } : Template.Place).set (if b then "1" else "0"))
  | .instant _ => .ok "8"
  | _ => .error (.noColumn level.kindName)

def context (c : LogContext LogValue) : Text :=
  let part (label : Text) (v : LogValue) : List Text :=
    if v.holds then [label ++ ("=" : Text) ++ v.text] else []
  let parts := part "op" c.operation ++ part "key" c.cacheKey
  if parts.isEmpty then [] else (" | " : Text) ++ Text.join " " parts

def format (useColors : Bool) (r : LogRecord) (c : LogContext LogValue) (now : Instant) :
    Except LineFault Text := do
  let now ← now.inUtc.mapError .time
  let level ← if useColors then (colored r.level).mapError .misfit else pure r.level
  let level ← (column level).mapError .misfit
  let message ← r.text
  let report ← r.reported.report?.mapError .misfit
  return now.readingText " " 1 ++ (" | " : Text) ++ level ++ (" | " : Text) ++ r.speaker.text
    ++ (" | " : Text) ++ message ++ context c
    ++ (report.elim [] fun report => ("\n" : Text) ++ report)

end ConsoleLine

end SlidingCache
