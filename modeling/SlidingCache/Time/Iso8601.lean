import SlidingCache.Text.Utf8
import SlidingCache.Time.Instant

/-!
# Reading ISO 8601

`Instant.ofText?` reads a date, any one separating character and a time of day.

* The date is a calendar date (`2026-01-10`, `20260110`) or a week date (`2026-W02-6`, `2026W026`,
  or without the day for the Monday), all hyphens or none.
* The time is hours, minutes and seconds, later ones may be missing, all colons or none. A fraction
  follows a period or a comma, or a fourth group of digits; digits after the sixth are dropped.
* The offset is `Z`, or a sign and a time. It begins at the first sign or `Z`. One octet between
  the time and the offset is passed over, and so is all that follows six digits of a fraction.

The text is read as its UTF-8 octets, and as if it went on with zeros beyond its end.
-/

namespace SlidingCache.Iso8601

/-- The octet of an ASCII character. -/
def octet (c : Char) : UInt8 := UInt8.ofNat c.toNat

/-- The octet at a position, zero beyond the end. -/
def octetAt (t : Bytes) (i : Nat) : UInt8 := t.getD i 0

def digit? (b : UInt8) : Option Nat := (CodePoint.ofByte b).digit?

def isDigit (b : UInt8) : Bool := (CodePoint.ofByte b).isDigit

/-- The number that the given count of digits at a position stands for. -/
def number? (t : Bytes) (pos count : Nat) : Option Nat := do
  let digits ← (List.range count).mapM fun i => digit? (octetAt t (pos + i))
  return digits.foldl (fun acc d => acc * 10 + d) 0

def hyphen : UInt8 := octet '-'

def weekMark : UInt8 := octet 'W'

/-! ## Dates -/

/-- Where the date ends. The form of the date is told by its fifth and sixth octet. A week date
without hyphens is followed by a separator and by pairs of digits, so the day of the week is written
where the run of digits after the week is even in number. -/
def dateEnd? (t : Bytes) : Option Nat :=
  if t.length = 7 then some 7
  else if octetAt t 4 = hyphen then
    if octetAt t 5 ≠ weekMark then some 10
    else if t.length < 8 then none
    else if 8 < t.length ∧ octetAt t 8 = hyphen then
      if t.length = 9 then none
      else if 10 < t.length ∧ isDigit (octetAt t 10) then some 8
      else some 10
    else some 8
  else if octetAt t 4 = weekMark then
    let stop := 7 + ((t.drop 7).takeWhile isDigit).length
    if stop < 9 then some stop
    else if stop % 2 = 0 then some 7
    else some 8
  else some 8

/-- The date in the first `stop` octets. -/
def date? (t : Bytes) (stop : Nat) : Option Date := do
  let year ← number? t 0 4
  let hyphens := octetAt t 4 = hyphen
  let gap := if hyphens then 1 else 0
  let pos := 4 + gap
  if octetAt t pos = weekMark then
    let week ← number? t (pos + 1) 2
    let pos := pos + 3
    if pos < stop then
      if hyphens ∧ octetAt t pos ≠ hyphen then none
      Date.ofWeek? year week (← number? t (pos + gap) 1)
    else Date.ofWeek? year week 1
  else
    let month ← number? t pos 2
    let pos := pos + 2
    if hyphens ∧ octetAt t pos ≠ hyphen then none
    return ⟨year, month, ← number? t (pos + gap) 2⟩

/-! ## Times of day and offsets -/

/-- Hours, minutes, seconds and microseconds, and whether something was left over. -/
structure Clock where
  hour : Nat
  minute : Nat
  second : Nat
  micro : Nat
  leftover : Bool

def Clock.ofFields (fields : List Nat) (micro : Nat) (leftover : Bool) : Clock :=
  ⟨fields.getD 0 0, fields.getD 1 0, fields.getD 2 0, micro, leftover⟩

/-- The fraction at a position before `stop`: up to six digits, and then digits that are passed. -/
def fraction? (t : Bytes) (pos stop : Nat) (fields : List Nat) : Option Clock := do
  let count := min 6 (stop - pos)
  let value ← number? t pos count
  let rest := (t.drop (pos + count)).dropWhile isDigit
  return .ofFields fields (value * Nat.pow 10 (6 - count)) (octetAt rest 0 ≠ 0)

/-- Reads the fields that are still `missing`, of a clock whose `fields` were read. -/
def fields? (t : Bytes) (stop : Nat) : (missing : Nat) → (pos : Nat) → List Nat →
    (colons : Bool) → Option Clock
  | 0, pos, fields, _ => fraction? t pos stop fields
  | missing + 1, pos, fields, colons => do
    let fields := fields ++ [← number? t pos 2]
    let c := octetAt t (pos + 2)
    let colons := if fields.length = 1 then c = octet ':' else colons
    if stop ≤ pos + 3 then return .ofFields fields 0 (c ≠ 0)
    else if colons ∧ c = octet ':' then fields? t stop missing (pos + 3) fields colons
    else if c = octet '.' ∨ c = octet ',' then fraction? t (pos + 3) stop fields
    else if !colons then fields? t stop missing (pos + 2) fields colons
    else none

/-- The time of day from `pos` to `stop`. -/
def clock? (t : Bytes) (pos stop : Nat) : Option Clock := fields? t stop 3 pos [] true

def startsOffset (b : UInt8) : Bool := b = octet '+' ∨ b = hyphen ∨ b = octet 'Z'

/-- The offset that begins at a position. An offset of no whole second is zero. -/
def offset? (t : Bytes) (pos : Nat) : Option Offset := do
  if octetAt t pos = octet 'Z' then
    if octetAt t (pos + 1) = 0 then some .utc else none
  else
    let c ← clock? t (pos + 1) t.length
    if c.leftover then none
    let seconds := (c.hour * 60 + c.minute) * 60 + c.second
    let us : Int := if seconds = 0 then 0 else (seconds * usPerSecond + c.micro : Nat)
    Offset.ofMicroseconds? (if octetAt t pos = hyphen then -us else us)

/-- The instant of a date and the time and offset from `pos` on. -/
def timed? (t : Bytes) (date : Date) (pos : Nat) : Option Instant := do
  let stop := pos + ((t.drop pos).takeWhile (!startsOffset ·)).length
  let c ← clock? t pos stop
  if stop < t.length then
    Instant.ofParts? date c.hour c.minute c.second c.micro (some (← offset? t stop))
  else if c.leftover then none
  else Instant.ofParts? date c.hour c.minute c.second c.micro none

/-- The number of octets of the character that begins with the given one. -/
def width (first : UInt8) : Nat :=
  if first < 0x80 then 1 else if first < 0xE0 then 2 else if first < 0xF0 then 3 else 4

end SlidingCache.Iso8601

namespace SlidingCache

open Iso8601 in
/-- The instant that a text stands for. -/
def Instant.ofText? (t : Text) : Option Instant := do
  let octets ← t.utf8?
  if octets.length < 7 then none
  let stop ← dateEnd? octets
  let date ← date? octets stop
  if octets.length ≤ stop then Instant.ofParts? date 0 0 0 0 none
  else timed? octets date (stop + width (octetAt octets stop))

end SlidingCache
