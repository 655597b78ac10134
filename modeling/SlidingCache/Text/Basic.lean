/-!
# Text as code points

Keys and log messages are sequences of Unicode code points in which surrogates may stand alone,
so text here is a list of code points and not a `String`.

* `CodePoint`: a number below `0x110000`, surrogates included;
* `Text`: a list of them, written as a string literal where all of them are characters;
* `Text.pieces`, `Text.join`: cutting at a separator and putting back together. Joining the pieces
  gives the text back (`Text.join_pieces`).
-/

namespace SlidingCache

/-- A Unicode code point, surrogates included. -/
@[ext] structure CodePoint where
  val : Nat
  lt : val < 0x110000
  deriving DecidableEq

abbrev Text := List CodePoint

abbrev Bytes := List UInt8

namespace CodePoint

instance : Inhabited CodePoint := ⟨⟨0, by decide⟩⟩

def ofChar (c : Char) : CodePoint :=
  ⟨c.toNat, by have h := c.valid; simp only [UInt32.isValidChar, Nat.isValidChar] at h
               show c.val.toNat < _; omega⟩

instance : Coe Char CodePoint := ⟨ofChar⟩

def ofNat? (n : Nat) : Option CodePoint :=
  if h : n < 0x110000 then some ⟨n, h⟩ else none

/-- A byte below `0x80` read as the character of the same number. -/
def ofByte (b : UInt8) : CodePoint :=
  ⟨b.toNat, Nat.lt_trans b.toNat_lt_size (by decide)⟩

def isSurrogate (c : CodePoint) : Bool := 0xD800 ≤ c.val && c.val ≤ 0xDFFF

def isAscii (c : CodePoint) : Bool := c.val < 0x80

def isDigit (c : CodePoint) : Bool := 0x30 ≤ c.val && c.val ≤ 0x39

def isUpper (c : CodePoint) : Bool := 0x41 ≤ c.val && c.val ≤ 0x5A

def isLower (c : CodePoint) : Bool := 0x61 ≤ c.val && c.val ≤ 0x7A

/-- An ASCII letter or digit. -/
def isAlphanumeric (c : CodePoint) : Bool := c.isDigit || c.isUpper || c.isLower

/-- The value of a decimal digit. -/
def digit? (c : CodePoint) : Option Nat := if c.isDigit then some (c.val - 0x30) else none

/-- The value of a hexadecimal digit of either case. -/
def hexDigit? (c : CodePoint) : Option Nat :=
  if c.isDigit then some (c.val - 0x30)
  else if 0x41 ≤ c.val ∧ c.val ≤ 0x46 then some (c.val - 0x37)
  else if 0x61 ≤ c.val ∧ c.val ≤ 0x66 then some (c.val - 0x57)
  else none

end CodePoint

/-- A code point as a character, unless it is a surrogate. -/
def CodePoint.toChar? (c : CodePoint) : Option Char :=
  if h : c.val.isValidChar then some (Char.ofNatAux c.val h) else none

namespace Text

def ofString (s : String) : Text := s.toList.map CodePoint.ofChar

instance : Coe String Text := ⟨ofString⟩

/-- The string of the same characters, if no surrogate stands in the text. -/
def toString? (t : Text) : Option String := (t.mapM CodePoint.toChar?).map String.ofList

/-! ## Cutting and joining -/

/-- The parts between the separators: one more than there are separators. -/
def pieces (sep : CodePoint) : Text → List Text
  | [] => [[]]
  | c :: r =>
    if c = sep then [] :: pieces sep r
    else match pieces sep r with
      | [] => [[c]]
      | p :: ps => (c :: p) :: ps

def join (sep : Text) : List Text → Text
  | [] => []
  | [p] => p
  | p :: ps => p ++ sep ++ join sep ps

theorem pieces_ne_nil (sep : CodePoint) (t : Text) : pieces sep t ≠ [] := by
  cases t with
  | nil => simp [pieces]
  | cons c r => simp only [pieces]; split <;> (try split) <;> simp

@[simp] theorem join_cons_of_ne_nil (sep p : Text) {ps : List Text} (h : ps ≠ []) :
    join sep (p :: ps) = p ++ sep ++ join sep ps := by
  cases ps with
  | nil => exact absurd rfl h
  | cons q qs => rfl

theorem join_cons_cons (sep p : Text) (c : CodePoint) (ps : List Text) :
    join sep ((c :: p) :: ps) = c :: join sep (p :: ps) := by
  cases ps <;> simp [join]

theorem join_pieces (sep : CodePoint) (t : Text) : join [sep] (pieces sep t) = t := by
  induction t with
  | nil => rfl
  | cons c r ih =>
    rw [pieces]
    split
    · rename_i h
      rw [join_cons_of_ne_nil _ _ (pieces_ne_nil sep r), ih, h]; rfl
    · split
      · rename_i h; exact absurd h (pieces_ne_nil sep r)
      · rename_i p ps h
        rw [h] at ih
        rw [join_cons_cons, ih]

/-- Whether the text begins with the given one. -/
def startsWith (t start : Text) : Bool := start.isPrefixOf t

/-- The text without the given ending characters. -/
def dropEndWhile (p : CodePoint → Bool) (t : Text) : Text := (t.reverse.dropWhile p).reverse

/-- Trailing blanks up to the given width. -/
def padRight (width : Nat) (t : Text) : Text :=
  t ++ List.replicate (width - t.length) (CodePoint.ofChar ' ')

/-- The order by code points. -/
def le : Text → Text → Bool
  | [], _ => true
  | _ :: _, [] => false
  | a :: s, b :: t => a.val < b.val || (a.val = b.val && le s t)

/-! ## Letter case of ASCII -/

def lowerAscii (t : Text) : Text :=
  t.map fun c => if h : c.isUpper then
    ⟨c.val + 32, by simp [CodePoint.isUpper] at h; omega⟩ else c

end Text

end SlidingCache
