import SlidingCache.Table
import SlidingCache.Text.Blank

/-!
# Files of environment variables

Lines of the form `NAME=value`, with blanks around the sign, `export` in front, and comments behind
a `#` that follows a blank. A name may stand in single quotes, a value in single or double ones;
quoted values may span lines, and in double quotes the usual escapes are read. A line that fits
none of this is passed over. A name without a sign has no value.

In a value, `$` and a name in braces stand for the value of that name, which an earlier line of the
file or the environment gives, or for the default behind `:-`.
-/

namespace SlidingCache.EnvFile

/-- Names with their values, if they have one, in order. -/
abbrev Bindings := List (Text × Option Text)

def isBreak (c : CodePoint) : Bool := c = CodePoint.ofChar '\n' || c = CodePoint.ofChar '\r'

/-- A blank inside a line. -/
def isGap (c : CodePoint) : Bool := c.isBlank && !isBreak c

def skipGap (t : Text) : Text := t.dropWhile isGap

/-- The text with every line break as a line feed. -/
def unifyBreaks : Text → Text
  | [] => []
  | [c] => [if isBreak c then CodePoint.ofChar '\n' else c]
  | c :: d :: r =>
    if c = CodePoint.ofChar '\r' then
      if d = CodePoint.ofChar '\n' then CodePoint.ofChar '\n' :: unifyBreaks r
      else CodePoint.ofChar '\n' :: unifyBreaks (d :: r)
    else c :: unifyBreaks (d :: r)

/-! ## Parts of a line

A part that is read leaves the rest; one that is not there leaves the text where it should stand. -/

def skipExport (t : Text) : Text :=
  let word : Text := "export"
  if t.startsWith word ∧ (t.drop word.length).head?.any isGap then skipGap (t.drop word.length)
  else t

/-- What stands up to a closing quote. A backslash keeps what follows it from closing. -/
def upToQuote (quote : CodePoint) : Text → Option (Text × Text)
  | [] => none
  | [c] => if c = quote then some ([], []) else none
  | c :: d :: r =>
    if c = quote then some ([], d :: r)
    else if c = CodePoint.ofChar '\\' then
      (upToQuote quote r).map fun (t, rest) => (c :: d :: t, rest)
    else (upToQuote quote (d :: r)).map fun (t, rest) => (c :: t, rest)

def singleQuote : CodePoint := CodePoint.ofChar '\''

def doubleQuote : CodePoint := CodePoint.ofChar '"'

def isNameChar (c : CodePoint) : Bool :=
  c ≠ CodePoint.ofChar '=' && c ≠ CodePoint.ofChar '#' && !c.isBlank

/-- A name; a comment has none. -/
def readName (t : Text) : Except Text (Option Text × Text) :=
  match t with
  | [] => .error t
  | c :: r =>
    if c = CodePoint.ofChar '#' then .ok (none, t)
    else if c = singleQuote then
      match r.dropWhile (· ≠ singleQuote), r.takeWhile (· ≠ singleQuote) with
      | _ :: rest, n :: name => .ok (some (n :: name), rest)
      | _, _ => .error t
    else match t.takeWhile isNameChar with
      | [] => .error t
      | name => .ok (some name, t.drop name.length)

/-- What an escape stands for in double quotes. -/
def escapes : List (Char × Nat) :=
  [('\\', 0x5C), ('\'', 0x27), ('"', 0x22), ('a', 7), ('b', 8), ('f', 0xC), ('n', 0xA), ('r', 0xD),
    ('t', 9), ('v', 0xB)]

/-- What an escape stands for in single quotes. -/
def singleEscapes : List (Char × Nat) := escapes.take 2

/-- Reads the given escapes and leaves other backslashes alone. -/
def unescape (known : List (Char × Nat)) : Text → Text
  | [] => []
  | [c] => [c]
  | c :: d :: r =>
    match if c = CodePoint.ofChar '\\' then known.find? fun e => d = CodePoint.ofChar e.1
      else none with
    | some (_, n) => (CodePoint.ofNat? n).toList ++ unescape known r
    | none => c :: unescape known (d :: r)

/-- The text in front of a `#` that follows a blank. -/
def upToComment (afterBlank : Bool) : Text → Text
  | [] => []
  | c :: r =>
    if c = CodePoint.ofChar '#' ∧ afterBlank then [] else c :: upToComment c.isBlank r

/-- A value, in quotes or up to the end of the line; a blank may stand in front of it. -/
def readValue (afterBlank : Bool) (t : Text) : Except Text (Text × Text) :=
  match t with
  | [] => .ok ([], t)
  | c :: r =>
    if c = singleQuote then match upToQuote c r with
      | some (v, rest) => .ok (unescape singleEscapes v, rest)
      | none => .error t
    else if c = doubleQuote then match upToQuote c r with
      | some (v, rest) => .ok (unescape escapes v, rest)
      | none => .error t
    else
      let line := t.takeWhile (!isBreak ·)
      .ok ((upToComment afterBlank line).trimEnd, t.drop line.length)

/-- The value behind the sign, if there is one. -/
def readAssigned (t : Text) : Except Text (Option Text × Text) :=
  match t with
  | c :: r =>
    if c = CodePoint.ofChar '=' then
      (readValue (r.head?.any isGap) (skipGap r)).map fun (v, rest) => (some v, rest)
    else .ok (none, t)
  | [] => .ok (none, t)

def skipComment (t : Text) : Text :=
  match skipGap t with
  | c :: r => if c = CodePoint.ofChar '#' then r.dropWhile (!isBreak ·) else t
  | [] => t

/-- Past the end of the line, if nothing but blanks stands before it. -/
def endLine (t : Text) : Except Text (Unit × Text) :=
  match skipGap t with
  | [] => .ok ((), [])
  | c :: r => if isBreak c then .ok ((), r) else .error t

def readLine (t : Text) : Except Text (Option (Text × Option Text) × Text) := do
  let (name, t) ← readName (skipExport t)
  let (value, t) ← readAssigned (skipGap t)
  let (_, t) ← endLine (skipComment t)
  return (name.map (·, value), t)

/-- Past the line in which something could not be read. -/
def dropLine (t : Text) : Text := (t.dropWhile (!isBreak ·)).drop 1

/-- The bindings of a text, line after line. -/
def readLines (t : Text) : Bindings :=
  let start := t.dropWhile CodePoint.isBlank
  if start.isEmpty then []
  else
    let (binding, rest) : Option (Text × Option Text) × Text := match readLine start with
      | .ok (binding, rest) => (binding, rest)
      | .error stopped => (none, dropLine stopped)
    binding.toList ++ if _h : rest.length < t.length then readLines rest else []
termination_by t.length

/-! ## Names in values -/

/-- A name, perhaps a default, and the closing brace. -/
def reference? (t : Text) : Option (Text × Text × Text) :=
  let colon := CodePoint.ofChar ':'
  let close : CodePoint := ⟨0x7D, by decide⟩
  let name := t.takeWhile fun c => c ≠ close ∧ c ≠ colon
  match t.drop name.length with
  | c :: r =>
    if c = close then some (name, [], r)
    else match r with
      | d :: r =>
        if d = CodePoint.ofChar '-' then
          let default := r.takeWhile (· ≠ close)
          match r.drop default.length with
          | _ :: rest => some (name, default, rest)
          | [] => none
        else none
      | [] => none
  | [] => none

/-- The text with its references replaced by what `value?` gives, or else by their defaults. -/
def expand (value? : Text → Option Text) (t : Text) : Text :=
  match t with
  | [] => []
  | [c] => [c]
  | c :: d :: r =>
    if c = CodePoint.ofChar '$' ∧ d.val = 0x7B then
      match reference? r with
      | some (name, default, rest) =>
        (value? name).getD default
          ++ if _h : rest.length < r.length + 2 then expand value? rest else []
      | none => c :: expand value? (d :: r)
    else c :: expand value? (d :: r)
termination_by t.length

/-- Expands the values one after another; each sees those before it, then the environment. -/
def resolve (environment : List (Text × Text)) (bindings : Bindings) :
    Table Text (Option Text) :=
  bindings.foldl (fun known (name, value) =>
    let value? (n : Text) : Option Text := match known.get? n with
      | some v => some (v.getD [])
      | none => Table.get? n environment
    known.put name (value.map (expand value?))) []

/-- The mark that may stand in front of a text to tell its encoding. -/
def byteOrderMark : CodePoint := ⟨0xFEFF, by decide⟩

def skipMark (t : Text) : Text := if t.head? = some byteOrderMark then t.drop 1 else t

/-- What a file binds. -/
def read (environment : List (Text × Text)) (file : Text) : Table Text (Option Text) :=
  resolve environment (readLines (unifyBreaks (skipMark file)))

end SlidingCache.EnvFile
