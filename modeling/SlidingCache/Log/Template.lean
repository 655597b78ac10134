import SlidingCache.Log.Value
import SlidingCache.Number.Rounded
import SlidingCache.Text.Upper

/-!
# Message templates

A template is text with places to be filled: a percent sign, if values are named the name in
parentheses, flags, a width, a precision after a point, and the letter of a form. Two percent signs
stand for one.

* flags: `-` sets to the left, `+` and blank show the sign of positive numbers, `#` asks for the
  longer form, `0` fills with zeros;
* width and precision are numerals, or `*` for a value of their own;
* forms: `s`, `r` and `a` for text, `d`, `i`, `u`, `o`, `x`, `X` for integers, `e`, `f`, `g` and
  their capitals for numbers with places, `c` for one character.

Every value has to be used.
-/

namespace SlidingCache

inductive TemplateFault where
  | incomplete
  | incompleteName
  /-- A place has a name, but the values have none. -/
  | needsNames
  | unknownName (name : Text)
  /-- A place has a name, but what is in the value has numbers. -/
  | numbersOnly (kind : Text)
  | tooFew
  | unused
  | starNotInteger
  | widthTooLarge
  | precisionTooLarge
  /-- A width or precision given as a value needs too many bits. -/
  | starTooLarge (forPrecision : Bool)
  | notNumber (letter : CodePoint) (kind : Text)
  | notInteger (letter : CodePoint) (kind : Text)
  | notReal (kind : Text)
  | realTooLarge
  | notCharacter
  | noSuchCharacter
  | unknownLetter (letter : CodePoint) (index : Nat)
  /-- The place is wider than any memory. -/
  | noMemory
  deriving DecidableEq

def TemplateFault.message : TemplateFault → Text
  | incomplete => "incomplete format"
  | incompleteName => "incomplete format key"
  | needsNames => "format requires a mapping"
  | unknownName name => name.quoted
  | numbersOnly kind => kind ++ (" indices must be integers or slices, not str" : Text)
  | tooFew => "not enough arguments for format string"
  | unused => "not all arguments converted during string formatting"
  | starNotInteger => "* wants int"
  | widthTooLarge => "width too big"
  | precisionTooLarge => "precision too big"
  | starTooLarge forPrecision =>
    ("Python int too large to convert to C " : Text)
      ++ (if forPrecision then ("int" : Text) else "ssize_t")
  | notNumber letter kind =>
    ("%" : Text) ++ letter :: (" format: a real number is required, not " : Text) ++ kind
  | notInteger letter kind =>
    ("%" : Text) ++ letter :: (" format: an integer is required, not " : Text) ++ kind
  | notReal kind => ("must be real number, not " : Text) ++ kind
  | realTooLarge => "int too large to convert to float"
  | notCharacter => "%c requires int or char"
  | noSuchCharacter => "%c arg not in range(0x110000)"
  | unknownLetter letter index =>
    ("unsupported format character '" : Text)
      ++ (if 31 ≤ letter.val ∧ letter.val ≤ 126 then letter else CodePoint.ofChar '?')
      :: ("' (0x" : Text) ++ Text.numeral 16 letter.val ++ (") at index " : Text)
      ++ Text.ofNat index
  | noMemory => []

/-- What fills a template. -/
inductive Arguments where
  /-- Values in order. -/
  | list (values : List LogValue)
  /-- One value, which may hold further ones. -/
  | one (value : LogValue)

namespace Template

/-! ## Supply -/

/-- The values that are left. -/
inductive Supply where
  | list (values : List LogValue)
  | one (value : LogValue) (used : Bool)

namespace Supply

def next? : Supply → Except TemplateFault (LogValue × Supply)
  | list (v :: rest) => .ok (v, list rest)
  | one v false => .ok (v, one v true)
  | list [] | one _ true => .error .tooFew

/-- Whether a value is left that has to be used. -/
def isLeft : Supply → Bool
  | list values => !values.isEmpty
  | one _ used => !used

def ofArguments : Arguments → Supply
  | .list values => list values
  | .one value => one value false

end Supply

/-- Whether there is a value that holds others. It need not be used, and places may have names. -/
def hasParts : Arguments → Bool
  | .one (.obj _) | .one (.arr _) | .one (.bytes _) => true
  | _ => false

/-- The value under a name. Only the fields of an object have names. -/
def named (name : Text) : Arguments → Except TemplateFault LogValue
  | .one (.obj fields) => match fields.find? (·.1 = name) with
    | some (_, v) => .ok v
    | none => .error (.unknownName name)
  | .one (.arr _) => .error (.numbersOnly "list")
  | .one (.bytes _) => .error (.numbersOnly "byte")
  | _ => .error .needsNames

/-! ## Places -/

structure Place where
  left : Bool := false
  plus : Bool := false
  blank : Bool := false
  long : Bool := false
  zero : Bool := false
  width : Nat := 0
  precision : Option Nat := none
  deriving DecidableEq

/-- A number as sign, mark of its base and digits. -/
structure Numeral where
  negative : Bool
  mark : Text := []
  digits : Text

namespace Place

/-- The place with a flag, if it is one. -/
def flag? (p : Place) (c : CodePoint) : Option Place :=
  if c = CodePoint.ofChar '-' then some { p with left := true }
  else if c = CodePoint.ofChar '+' then some { p with plus := true }
  else if c = CodePoint.ofChar ' ' then some { p with blank := true }
  else if c = CodePoint.ofChar '#' then some { p with long := true }
  else if c = CodePoint.ofChar '0' then some { p with zero := true }
  else none

def flags (p : Place) : Text → Place × Text
  | [] => (p, [])
  | c :: r => match p.flag? c with
    | some p => p.flags r
    | none => (p, c :: r)

/-- Text set into the place. -/
def set (p : Place) (t : Text) : Text :=
  let blanks : Text := List.replicate (p.width - t.length) (CodePoint.ofChar ' ')
  if p.left then t ++ blanks else blanks ++ t

/-- A number set into the place; zeros go behind its sign. -/
def setNumeral (p : Place) (n : Numeral) : Text :=
  let sign : Text :=
    if n.negative then "-" else if p.plus then "+" else if p.blank then " " else []
  let front := sign ++ n.mark
  if p.zero ∧ !p.left then front ++ Text.padded (p.width - front.length) n.digits
  else p.set (front ++ n.digits)

/-- The leading part of a text that a precision leaves. -/
def cut (p : Place) (t : Text) : Text := match p.precision with
  | some n => t.take n
  | none => t

end Place

/-! ## Forms -/

def asciiOnly (t : Text) : Text := t.flatMap fun c => if c.isAscii then [c] else c.byNumber

/-- The integer that a value stands for in an integer form; a number with places is cut off. -/
def integer (letter : CodePoint) (decimal : Bool) : LogValue → Except TemplateFault Int
  | .int n => .ok n
  | .bool b => .ok (if b then 1 else 0)
  | .float negative b =>
    if decimal then .ok (if negative then -(b.truncate : Int) else b.truncate)
    else .error (.notInteger letter "float")
  | v => .error (if decimal then .notNumber letter v.kindName else .notInteger letter v.kindName)

def integerForm (p : Place) (letter : Char) (v : LogValue) : Except TemplateFault Text := do
  let (base, mark) : Nat × Text := match letter with
    | 'o' => (8, "0o")
    | 'x' => (16, "0x")
    | 'X' => (16, "0X")
    | _ => (10, [])
  let n ← integer letter (base = 10) v
  let digits := Text.padded (p.precision.getD 0) (Text.numeral base n.natAbs)
  return p.setNumeral
    ⟨n < 0, if p.long then mark else [], if letter = 'X' then digits.upper else digits⟩

def real : LogValue → Except TemplateFault (Bool × Binary64)
  | .float negative b => .ok (negative, b)
  | .int n => match Binary64.nearest? n.natAbs 1 with
    | some b => .ok (n < 0, b)
    | none => .error .realTooLarge
  | .bool b => .ok (false, if b then ⟨1, 0⟩ else .zero)
  | v => .error (.notReal v.kindName)

def realForm (p : Place) (letter : Char) (v : LogValue) : Except TemplateFault Text := do
  let (negative, b) ← real v
  let places := p.precision.getD 6
  let digits := match letter with
    | 'e' | 'E' => b.scientific places p.long false
    | 'f' | 'F' => b.fixed places p.long false
    | _ => b.general places p.long
  return p.setNumeral ⟨negative, [], if letter.isUpper then digits.upper else digits⟩

def character : LogValue → Except TemplateFault CodePoint
  | .str [c] => .ok c
  | v => match v.int? with
    | none => .error .notCharacter
    | some n => match if n < 0 then none else CodePoint.ofNat? n.toNat with
      | some c => .ok c
      | none => .error .noSuchCharacter

/-- A value in the form of a letter. -/
def form (p : Place) (letter : CodePoint) (index : Nat) (v : LogValue) :
    Except TemplateFault Text :=
  match letter.toChar? with
  | some 's' => .ok (p.set (p.cut v.text))
  | some 'r' => .ok (p.set (p.cut v.description))
  | some 'a' => .ok (p.set (p.cut (asciiOnly v.description)))
  | some 'c' => return p.set [← character v]
  | some l =>
    if ['d', 'i', 'u', 'o', 'x', 'X'].contains l then integerForm p l v
    else if ['e', 'E', 'f', 'F', 'g', 'G'].contains l then realForm p l v
    else .error (.unknownLetter letter index)
  | none => .error (.unknownLetter letter index)

/-! ## Reading a place -/

/-- A name up to the parenthesis that closes it; inner ones come in pairs. -/
def name? (depth : Nat) : Text → Option (Text × Text)
  | [] => none
  | c :: r =>
    if c = CodePoint.ofChar ')' then
      match depth with
      | 0 => some ([], r)
      | d + 1 => (name? d r).map fun (n, r) => (c :: n, r)
    else (name? (if c = CodePoint.ofChar '(' then depth + 1 else depth) r).map
      fun (n, r) => (c :: n, r)

/-- Takes the named value as the only one, if a name stands here. -/
def readName (args : Arguments) (supply : Supply) (t : Text) :
    Except TemplateFault (Supply × Text) :=
  match t with
  | c :: r =>
    if c ≠ CodePoint.ofChar '(' then .ok (supply, t)
    else if !hasParts args then .error .needsNames
    else match name? 0 r with
      | none => .error .incompleteName
      | some (name, r) => (named name args).map fun v => (.one v false, r)
  | [] => .ok (supply, t)

/-- A number below a limit that stands here as a numeral, or as a star for the next value. -/
def readNumber (limit : Int) (large starLarge : TemplateFault) (supply : Supply) (t : Text) :
    Except TemplateFault (Option Int × Supply × Text) :=
  match t with
  | c :: r =>
    if c = CodePoint.ofChar '*' then do
      let (v, supply) ← supply.next?
      match v.int? with
      | some n => if n < -limit ∨ limit ≤ n then throw starLarge else return (some n, supply, r)
      | none => throw .starNotInteger
    else
      let digits := t.takeWhile CodePoint.isDigit
      match Text.natOf? digits with
      | some n => if limit ≤ n then .error large else .ok (some n, supply, t.drop digits.length)
      | none => .ok (none, supply, t)
  | [] => .ok (none, supply, t)

def readWidth (p : Place) (supply : Supply) (t : Text) :
    Except TemplateFault (Place × Supply × Text) := do
  let (n, supply, t) ← readNumber (Nat.pow 2 63) .widthTooLarge (.starTooLarge false) supply t
  match n with
  | some n => return ({ p with width := n.natAbs, left := p.left || n < 0 }, supply, t)
  | none => return (p, supply, t)

def readPrecision (p : Place) (supply : Supply) (t : Text) :
    Except TemplateFault (Place × Supply × Text) := do
  match t with
  | c :: r =>
    if c = CodePoint.ofChar '.' then
      let (n, supply, r) ←
        readNumber (Nat.pow 2 31) .precisionTooLarge (.starTooLarge true) supply r
      return ({ p with precision := some ((n.getD 0).toNat) }, supply, r)
    else return (p, supply, t)
  | [] => return (p, supply, t)

/-- A letter for the size of a number says nothing here. -/
def skipSize : Text → Text
  | c :: r => if (Text.ofString "hlL").contains c then r else c :: r
  | [] => []

/-- The greatest width that is tried. -/
def maxWidth : Nat := Nat.pow 2 40

/-- Fills the place that begins here, behind its percent sign, in a text of the given length. -/
def fillPlace (args : Arguments) (length : Nat) (supply : Supply) (t : Text) :
    Except TemplateFault (Text × Supply × Text) := do
  match t with
  | [] => throw .incomplete
  | c :: r => if c = CodePoint.ofChar '%' then return ([c], supply, r)
  let (supply, t) ← readName args supply t
  let (p, t) := ({} : Place).flags t
  let (p, supply, t) ← readWidth p supply t
  let (p, supply, t) ← readPrecision p supply t
  match skipSize t with
  | [] => throw .incomplete
  | letter :: rest =>
    let (v, supply) ← supply.next?
    let filled (p : Place) := form p letter (length - rest.length - 1) v
    if maxWidth < p.width then
      let _ ← filled { p with width := 0 }
      throw .noMemory
    return (← filled p, supply, rest)

/-- Fills the rest of a template of the given length. Each place takes at least one character, so
the length of the rest bounds the number of places. -/
def fillRest (args : Arguments) (length : Nat) : Nat → Supply → Text →
    Except TemplateFault (Text × Supply)
  | 0, supply, _ => .ok ([], supply)
  | _, supply, [] => .ok ([], supply)
  | bound + 1, supply, c :: r => do
    if c = CodePoint.ofChar '%' then
      let (filled, supply, rest) ← fillPlace args length supply r
      let (more, supply) ← fillRest args length bound supply rest
      return (filled ++ more, supply)
    else
      let (more, supply) ← fillRest args length bound supply r
      return (c :: more, supply)

/-- The template with all its places filled. -/
def fill (template : Text) (args : Arguments) : Except TemplateFault Text := do
  let (t, supply) ← fillRest args template.length template.length (.ofArguments args) template
  if supply.isLeft ∧ !hasParts args then throw .unused
  return t

end Template

end SlidingCache
