import SlidingCache.Text.Basic

/-!
# Punycode

The string form of RFC 3492: the ASCII characters in their order, a hyphen if there are any, and
then the other code points as numerals of mixed radix, each the distance in the walk over pairs
(code point, position) since the one before. Code points are not limited to characters, numerals
not to machine words.

Writing and reading each go in two stages, through the list of distances:

* `Punycode.distances` and `Punycode.insertAll` between text and distances;
* `Punycode.digits` and `Punycode.readDistances` between distances and digits.

`Punycode.encode` and `Punycode.decode?` put them together.
-/

namespace SlidingCache.Punycode

/-! ## Radix and bias -/

/-- The greatest digit value that ends a numeral at a place, plus one. -/
def threshold (place bias : Nat) : Nat :=
  if 36 * (place + 1) < bias + 1 then 1
  else if bias + 26 < 36 * (place + 1) then 26
  else 36 * (place + 1) - bias

theorem one_le_threshold (place bias : Nat) : 1 ≤ threshold place bias := by
  unfold threshold; split <;> (try split) <;> omega

theorem threshold_le (place bias : Nat) : threshold place bias ≤ 26 := by
  unfold threshold; split <;> (try split) <;> omega

/-- Divides by 35 until at most 455 is left, and counts 36 for each division. -/
def settle (distance steps : Nat) : Nat × Nat :=
  if 455 < distance then settle (distance / 35) (steps + 36) else (distance, steps)
termination_by distance
decreasing_by exact Nat.div_lt_self (by omega) (by omega)

/-- The bias for the next numeral, from the distance just written and the number of code points
present after it. -/
def adapt (distance : Nat) (first : Bool) (present : Nat) : Nat :=
  let damped := if first then distance / 700 else distance / 2
  let (rest, steps) := settle (damped + damped / present) 0
  steps + 36 * rest / (rest + 38)

/-! ## Digits -/

/-- The character of a digit value below 36: letters first, in lower case. -/
def digit (d : Nat) : CodePoint :=
  if d < 26 then ⟨0x61 + d % 26, by omega⟩ else ⟨0x30 + (d - 26) % 10, by omega⟩

/-- The value of a letter of either case or a decimal digit. -/
def digit? (c : CodePoint) : Option Nat :=
  if c.isLower then some (c.val - 0x61)
  else if c.isUpper then some (c.val - 0x41)
  else if c.isDigit then some (c.val - 0x30 + 26)
  else none

/-- The numeral of a distance from a place on. -/
def digits (bias place n : Nat) : Text :=
  if n < threshold place bias then [digit n]
  else
    let radix := 36 - threshold place bias
    digit (threshold place bias + (n - threshold place bias) % radix)
      :: digits bias (place + 1) ((n - threshold place bias) / radix)
termination_by n
decreasing_by
  have := one_le_threshold place bias
  exact Nat.lt_of_le_of_lt (Nat.div_le_self _ _) (by omega)

/-- The numerals of the distances one after the other; `count` of them and `basic` other code
points stand before. -/
def writeDistances (basic count bias : Nat) : List Nat → Text
  | [] => []
  | d :: ds =>
    digits bias 0 d
      ++ writeDistances basic (count + 1) (adapt d (count == 0) (basic + count + 1)) ds

/-- Where the reading of numerals stands. -/
structure Reading where
  /-- How many distances were read. -/
  count : Nat
  bias : Nat
  /-- The place, weight and value so far of the numeral that is being read. -/
  place : Nat
  weight : Nat
  value : Nat

/-- Before the first digit of the first numeral. -/
def Reading.start : Reading := ⟨0, 72, 0, 1, 0⟩

/-- Reads numerals to the end of the text; none if a character is no digit or the last numeral is
not complete. -/
def readDistances (basic : Nat) : Reading → Text → Option (List Nat)
  | s, [] => if s.place = 0 then some [] else none
  | s, c :: r => do
    let d ← digit? c
    let value := s.value + d * s.weight
    let t := threshold s.place s.bias
    if d < t then
      let bias := adapt value (s.count == 0) (basic + s.count + 1)
      return value :: (← readDistances basic ⟨s.count + 1, bias, 0, 1, 0⟩ r)
    else readDistances basic { s with place := s.place + 1, weight := s.weight * (36 - t), value } r

/-! ## Distances -/

/-- A code point into an ascending list without repetition. -/
def insertSorted (n : Nat) : List Nat → List Nat
  | [] => [n]
  | m :: ms => if n < m then n :: m :: ms else if n = m then m :: ms else m :: insertSorted n ms

/-- The numbers beyond ASCII that occur in a text, ascending. -/
def extended (t : Text) : List Nat :=
  (t.filter (!·.isAscii)).foldr (fun c l => insertSorted c.val l) []

/-- Passes over the text and gives the distance of each occurrence of `n`, counting the smaller
code points as present; the second part is what has run up since the last occurrence. -/
def sweep (n : Nat) : Text → Nat → List Nat × Nat
  | [], run => ([], run)
  | c :: r, run =>
    if c.val < n then sweep n r (run + 1)
    else if c.val = n then
      let (ds, rest) := sweep n r 0
      (run :: ds, rest)
    else sweep n r run

/-- The distances of the occurrences of the given code points; the walk stands at code point
`point` with `present` code points in place and `run` pairs passed. -/
def distancesFrom (t : Text) (point present run : Nat) : List Nat → List Nat
  | [] => []
  | n :: ns =>
    let (ds, rest) := sweep n t (run + (n - point) * (present + 1))
    ds ++ distancesFrom t (n + 1) (present + ds.length) (rest + 1) ns

def distances (t : Text) : List Nat :=
  distancesFrom t 0x80 (t.countP CodePoint.isAscii) 0 (extended t)

/-- Puts the code points back: the walk stands at code point `point` and position `pos`. None if
it leaves the code points. -/
def insertAll (point pos : Nat) (t : Text) : List Nat → Option Text
  | [] => some t
  | d :: ds => do
    let c ← CodePoint.ofNat? (point + (pos + d) / (t.length + 1))
    let here := (pos + d) % (t.length + 1)
    insertAll c.val (here + 1) (t.take here ++ c :: t.drop here) ds

/-! ## The whole form -/

def hyphen : CodePoint := CodePoint.ofChar '-'

def encode (t : Text) : Text :=
  let basic := t.filter CodePoint.isAscii
  (if basic.isEmpty then [] else basic ++ [hyphen])
    ++ writeDistances basic.length 0 72 (distances t)

/-- The parts before and after the last hyphen; without one all is the second part. -/
def splitAtLastHyphen (t : Text) : Text × Text :=
  match t.reverse.dropWhile (· ≠ hyphen) with
  | [] => ([], t)
  | _ :: basic => (basic.reverse, (t.reverse.takeWhile (· ≠ hyphen)).reverse)

/-- Reads the form back; none for text that is not ASCII, for numerals that are cut short or hold
a character that is no digit, and for code points out of range. -/
def decode? (t : Text) : Option Text := do
  if !t.all CodePoint.isAscii then none
  let (basic, numerals) := splitAtLastHyphen t
  insertAll 0x80 0 basic (← readDistances basic.length .start numerals)

end SlidingCache.Punycode
