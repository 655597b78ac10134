import SlidingCache.Log.Template
import SlidingCache.Table

/-!
# Log records

One event that is to be logged: who speaks, how severe it is, where in a program it was said, the
message as a template with its arguments, a failure that it reports, and fields of its own. A field
may take the place of one of the record's own parts.

Of a failure a record has three parts (`Failure`), the last of which is the report of it. That may
be any text, since it also tells where the failure was raised, what it came from and what was noted
about it. A failure of one of the kinds that the system knows, which is made and never raised, comes
with a report of its kind and what it says (`Failure.make`).
-/

namespace SlidingCache

/-- The names of the severities, by number. -/
def levelNames : List (Nat × Text) :=
  [(50, "CRITICAL"), (40, "ERROR"), (30, "WARNING"), (20, "INFO"), (10, "DEBUG"), (0, "NOTSET")]

/-- Further names that stand for a severity. -/
def otherLevelNames : List (Nat × Text) := [(50, "FATAL"), (30, "WARN")]

/-- What is shown for a severity: the name of a number, the number of a name; one that is unknown
goes by itself. -/
def levelShown (level : LogValue) : Except Misfit LogValue :=
  let named (n : Int) := (levelNames.find? fun row => (row.1 : Int) = n).map (LogValue.str ·.2)
  let unnamed := LogValue.str (("Level " : Text) ++ level.text)
  match level with
  | .arr _ | .obj _ => .error (.unhashable level.kindName)
  | .str t => .ok (((levelNames ++ otherLevelNames).find? (·.2 = t)).elim unnamed (.int ·.1))
  | v => .ok ((v.whole?.bind named).getD unnamed)

/-! ## Failures -/

/-- A failure that a record reports: the name of its kind and what it says, as far as there are
such, and the whole report of it. -/
structure Failure where
  kind : Option Text := none
  message : Option Text := none
  report : Text
  deriving DecidableEq

/-- What a failure of a kind that the system knows is made of: the kind and what it is given to
say. -/
structure Complaint where
  kind : Text
  args : List LogValue := []

namespace Complaint

/-- The failure of the system whose kind its number tells. -/
def system : Text := "OSError"

/-- The kinds of system failures by number. -/
def kindsByNumber : List (Int × Text) :=
  [(1, "PermissionError"), (2, "FileNotFoundError"), (3, "ProcessLookupError"),
    (4, "InterruptedError"), (10, "ChildProcessError"), (11, "BlockingIOError"),
    (13, "PermissionError"), (17, "FileExistsError"), (20, "NotADirectoryError"),
    (21, "IsADirectoryError"), (32, "BrokenPipeError"), (103, "ConnectionAbortedError"),
    (104, "ConnectionResetError"), (108, "BrokenPipeError"), (110, "TimeoutError"),
    (111, "ConnectionRefusedError"), (114, "BlockingIOError"), (115, "BlockingIOError")]

/-- The kinds that may be given an error number, its description and what it is about. -/
def numbered : List Text := system :: "ConnectionError" :: kindsByNumber.map Prod.snd

/-- Whether a failure is given as number, description and what it is about. -/
def isNumbered (c : Complaint) : Bool :=
  numbered.contains c.kind && 2 ≤ c.args.length && c.args.length ≤ 5

/-- The kind, as narrow as the error number makes it. -/
def name (c : Complaint) : Text :=
  let number := if c.kind = system ∧ c.isNumbered then c.args.head?.bind LogValue.int? else none
  match kindsByNumber.find? fun row => some row.1 = number with
  | some (_, kind) => kind
  | none => c.kind

/-- The kind whose only argument is shown in quotes. -/
def quoting : Text := "KeyError"

/-- The kind for which a number is not what it is about, but how far it went. -/
def counting : Text := "BlockingIOError"

/-- How far a failure says that it went, if it does. -/
def count? (c : Complaint) : Option LogValue :=
  if c.isNumbered && c.name == counting then (c.args[2]?).filter LogValue.isNumber else none

/-- What a numbered failure is about: a file, or two of them. -/
def subject (c : Complaint) : Text :=
  let file? (v : LogValue) := match v with
    | .null => none
    | v => some v.description
  if c.count?.isSome then []
  else match (c.args[2]?).bind file?, (c.args[4]?).bind file? with
    | none, _ => []
    | some v, none => (": " : Text) ++ v
    | some v, some w => (": " : Text) ++ v ++ (" -> " : Text) ++ w

def message (c : Complaint) : Text := match c.args with
  | [] => []
  | [v] => if c.kind = quoting then v.description else v.text
  | n :: v :: _ =>
    if c.isNumbered then ("[Errno " : Text) ++ n.text ++ ("] " : Text) ++ v.text ++ c.subject
    else LogValue.tupleText c.args

/-- The kind, and behind a colon the message unless it is empty. -/
def report (c : Complaint) : Text :=
  if c.message.isEmpty then c.name else c.name ++ (": " : Text) ++ c.message

def failure (c : Complaint) : Failure := ⟨c.name, c.message, c.report⟩

end Complaint

/-- A failure that was never raised. How far it went has to be an integer. -/
def Failure.make (kind : Text) (args : List LogValue) : Except Misfit Failure :=
  let c : Complaint := ⟨kind, args⟩
  match c.count?.map fun v => (v, v.int?) with
  | none => .ok c.failure
  | some (v, none) => .error (.notInteger v.kindName)
  | some (v, some n) =>
    if -(Nat.pow 2 63 : Int) ≤ n ∧ n < (Nat.pow 2 63 : Int) then .ok c.failure
    else .error (.tooLarge v.kindName)

/-- What a record tells of a failure: the failure, or a value in its place. -/
inductive Reported where
  | failure (f : Failure)
  | value (v : LogValue)

namespace Reported

/-- Nothing is told. -/
def nothing : Reported := value .null

/-- It is told that there was no failure. -/
def noFailure : Reported := value (.arr [.null, .null, .null])

/-- The report from a value whose second part is the failure and whose third is its trace. Only
`null` can be either. -/
def valueReport (v : LogValue) : Except Misfit Text := do
  let trace ← v.part 2
  let failure ← v.part 1
  match trace, failure with
  | .null, .null => return "NoneType: None"
  | .null, v => throw (.lacks v.kindName "__suppress_context__")
  | v, _ => throw (.lacks v.kindName "tb_frame")

/-- The report alone, if anything is told. -/
def report? : Reported → Except Misfit (Option Text)
  | failure f => .ok f.report
  | value v => if v.holds then some <$> valueReport v else .ok none

/-- The failure that is told of, if anything is. The first part of a value would be the kind, but no
value is one. -/
def failure? : Reported → Except Misfit (Option Failure)
  | failure f => .ok (some f)
  | value v =>
    if v.holds then do
      let kind ← v.part 0
      if kind.holds then throw (.lacks kind.kindName "__name__")
      let message ← v.part 1
      return some ⟨none, if message.holds then some message.text else none, ← valueReport v⟩
    else .ok none

end Reported

/-! ## Where it was said -/

/-- What follows the last slash. -/
def baseName (path : Text) : Text :=
  (path.reverse.takeWhile (· ≠ CodePoint.ofChar '/')).reverse

/-- A file's name without its last extension; periods in front begin no extension. -/
def stem (file : Text) : Text :=
  let isPeriod (c : CodePoint) : Bool := c = CodePoint.ofChar '.'
  let tail := (file.reverse.takeWhile (!isPeriod ·)).reverse
  let front := file.take (file.length - tail.length - 1)
  if file.any isPeriod && front.any (!isPeriod ·) then front else file

def moduleName (path : Text) : Text := stem (baseName path)

/-! ## Records -/

/-- Why a record cannot be written. -/
inductive LineFault where
  | time (fault : TimeFault)
  | template (fault : TemplateFault)
  | misfit (fault : Misfit)
  | json (fault : Json.WriteFault)

def LineFault.message : LineFault → Text
  | time fault => fault.message
  | template fault => fault.message
  | misfit fault => fault.message
  | json fault => fault.message

structure LogRecord where
  speaker : LogValue
  level : LogValue
  moduleName : LogValue
  function : LogValue
  line : LogValue
  message : LogValue
  args : Option Arguments
  reported : Reported := .nothing
  /-- The record's own fields, in order. -/
  extra : Table Text LogValue := []

namespace LogRecord

/-- The arguments of a message: a single object that is not empty gives named values. -/
def arguments : List LogValue → Option Arguments
  | [] => none
  | [.obj (f :: fields)] => some (.one (.obj (f :: fields)))
  | values => some (.list values)

/-- The module that a path names, if it is a path. -/
def moduleOf : LogValue → LogValue
  | .str path => .str (SlidingCache.moduleName path)
  | _ => .str "Unknown module"

def make (speaker level path line message : LogValue) (args : List LogValue) (function : LogValue)
    (reported : Reported) : Except Misfit LogRecord := do
  let level ← levelShown level
  let args := arguments args
  return { speaker, level, moduleName := moduleOf path, function, line, message, args, reported }

/-- The parts that every record has. They are no fields of its own. -/
def ownParts : List Text :=
  ["name", "msg", "args", "created", "filename", "funcName", "levelname", "levelno", "lineno",
    "module", "msecs", "pathname", "process", "processName", "relativeCreated", "stack_info",
    "exc_info", "exc_text", "thread", "threadName", "taskName", "message"]

/-- The record with a field set. -/
def set (r : LogRecord) (name : Text) (value : LogValue) : LogRecord :=
  if name = ("name" : Text) then { r with speaker := value }
  else if name = ("levelname" : Text) then { r with level := value }
  else if name = ("module" : Text) then { r with moduleName := value }
  else if name = ("funcName" : Text) then { r with function := value }
  else if name = ("lineno" : Text) then { r with line := value }
  else if name = ("msg" : Text) then { r with message := value }
  else if name = ("args" : Text) then
    { r with args := if value.holds then some (.one value) else none }
  else if name = ("exc_info" : Text) then { r with reported := .value value }
  else if ownParts.contains name then r
  else { r with extra := r.extra.put name value }

/-- A field of this name stands in the place of what makes the message, which no value can do. -/
def messageMaker : Text := "getMessage"

/-- The message with its arguments filled in. -/
def text (r : LogRecord) : Except LineFault Text :=
  match r.extra.find? (·.1 = messageMaker), r.args with
  | some (_, v), _ => .error (.misfit (.notCallable v.kindName))
  | none, some args => (Template.fill r.message.text args).mapError .template
  | none, none => .ok r.message.text

/-- The fields that are shown: those whose names do not begin with an underscore. -/
def shown (r : LogRecord) : Table Text LogValue :=
  r.extra.filter fun field => field.1.head? ≠ some (CodePoint.ofChar '_')

end LogRecord

end SlidingCache
