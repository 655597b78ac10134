import SlidingCache.Time.Calendar
import SlidingCache.Time.Duration

/-!
# Instants

A reading of date and clock in the years 1 to 9999, to the microsecond, with the UTC offset of the
place where it was read or without one. Instants with offsets are compared and subtracted by their
value in UTC, which may lie outside the calendar; instants without offset only among themselves.

* `Instant.toText` writes the reading with its offset;
* `Instant.description` gives the parts of the reading one by one;
* `Instant.inUtc` moves the reading to offset zero.
-/

namespace SlidingCache

/-- Microseconds ahead of UTC, less than a day either way. -/
structure Offset where
  us : Int
  inRange : -86400000000 < us ∧ us < 86400000000
  deriving DecidableEq

namespace Offset

def utc : Offset := ⟨0, by decide⟩

instance : Inhabited Offset := ⟨utc⟩

def ofMicroseconds? (us : Int) : Option Offset :=
  if h : -86400000000 < us ∧ us < 86400000000 then some ⟨us, h⟩ else none

/-- Sign, hours and minutes; seconds and their fraction only where they are not zero. -/
def toText (o : Offset) : Text :=
  let n := o.us.natAbs
  let two (n : Nat) := Text.padded 2 (Text.ofNat n)
  let seconds := n / usPerSecond
  let micros := n % usPerSecond
  (if o.us < 0 then ("-" : Text) else ("+" : Text)) ++ two (seconds / 3600) ++ (":" : Text)
    ++ two (seconds / 60 % 60)
    ++ (if seconds % 60 = 0 ∧ micros = 0 then [] else (":" : Text) ++ two (seconds % 60))
    ++ if micros = 0 then [] else ("." : Text) ++ Text.padded 6 (Text.ofNat micros)

def toDuration (o : Offset) : Duration :=
  ⟨o.us, by have := o.inRange; omega⟩

def description (o : Offset) : Text :=
  if o.us = 0 then "datetime.timezone.utc"
  else ("datetime.timezone(" : Text) ++ o.toDuration.description ++ (")" : Text)

end Offset

/-- The microseconds of the calendar. -/
abbrev calendarUs : Nat := 315537897600000000

structure Instant where
  /-- What calendar and clock showed, in microseconds since the calendar began. -/
  reading : Nat
  offset : Option Offset
  inCalendar : reading < calendarUs
  deriving DecidableEq

namespace Instant

instance : Inhabited Instant := ⟨⟨0, some .utc, by decide⟩⟩

/-- Whether the reading names a point of time. -/
def isAware (i : Instant) : Bool := i.offset.isSome

/-- The reading alone. -/
def withoutOffset (i : Instant) : Instant := { i with offset := none }

/-- The reading moved to UTC; one without offset stays. -/
def utcUs (i : Instant) : Int := i.reading - (i.offset.map Offset.us).getD 0

/-! ## Order and arithmetic -/

/-- Compares the values, if both have an offset or neither. -/
def compare? (i j : Instant) : Except TimeFault Ordering :=
  if i.isAware = j.isAware then .ok (compare i.utcUs j.utcUs) else .error .mixedComparison

def le? (i j : Instant) : Except TimeFault Bool := return (← i.compare? j) != .gt

theorem utcUs_bounds (i : Instant) :
    -86400000000 < i.utcUs ∧ i.utcUs < 315537897600000000 + 86400000000 := by
  have h := i.inCalendar
  simp only [calendarUs] at h
  rcases i with ⟨r, o, _⟩
  rcases o with _ | o
  · simp [utcUs] at *; omega
  · have := o.inRange
    simp [utcUs] at *; omega

/-- The time from one instant to another. -/
def since (i j : Instant) : Duration :=
  ⟨i.utcUs - j.utcUs, by have := i.utcUs_bounds; have := j.utcUs_bounds; omega⟩

def since? (i j : Instant) : Except TimeFault Duration :=
  if i.isAware = j.isAware then .ok (i.since j) else .error .mixedDifference

/-- The instant with another reading, if the calendar has it. -/
def withReading (i : Instant) (us : Int) : Except TimeFault Instant :=
  if h : 0 ≤ us ∧ us < calendarUs then .ok ⟨us.toNat, i.offset, by omega⟩ else .error .outOfCalendar

/-- A later or earlier instant at the same offset. -/
def add (i : Instant) (d : Duration) : Except TimeFault Instant := i.withReading (i.reading + d.us)

/-- The same instant read in UTC. A reading without offset is taken to be one in UTC; it needs a day
before it in the calendar, where an earlier reading of the same name is looked for. -/
def inUtc (i : Instant) : Except TimeFault Instant :=
  if !i.isAware ∧ i.reading < usPerDay then .error .noDayBefore
  else Instant.withReading ⟨i.reading, some .utc, i.inCalendar⟩ i.utcUs

/-! ## Parts -/

def date (i : Instant) : Date := .ofDayNumber (i.reading / usPerDay)

def hour (i : Instant) : Nat := i.reading / 3600000000 % 24

def minute (i : Instant) : Nat := i.reading / 60000000 % 60

def second (i : Instant) : Nat := i.reading / usPerSecond % 60

def microsecond (i : Instant) : Nat := i.reading % usPerSecond

/-- The instant of a valid date and time of day. -/
def ofParts? (date : Date) (hour minute second micro : Nat) (offset : Option Offset) :
    Option Instant :=
  let us := (((date.dayNumber * 24 + hour) * 60 + minute) * 60 + second) * usPerSecond + micro
  if h : date.IsValid ∧ hour < 24 ∧ minute < 60 ∧ second < 60 ∧ micro < usPerSecond
      ∧ us < calendarUs then
    some ⟨us, offset, h.2.2.2.2.2⟩
  else none

/-! ## Written forms -/

/-- Date and time of day, the given character between them. -/
def readingText (i : Instant) (separator : Text) (yearWidth : Nat) : Text :=
  let two (n : Nat) := Text.padded 2 (Text.ofNat n)
  Text.padded yearWidth (Text.ofNat i.date.year) ++ ("-" : Text) ++ two i.date.month
    ++ ("-" : Text) ++ two i.date.day ++ separator ++ two i.hour ++ (":" : Text) ++ two i.minute
    ++ (":" : Text) ++ two i.second

/-- The ISO 8601 form: six digits of a second only where they are not all zero, the offset last. -/
def toText (i : Instant) : Text :=
  i.readingText "T" 4
    ++ (if i.microsecond = 0 then []
        else ("." : Text) ++ Text.padded 6 (Text.ofNat i.microsecond))
    ++ (i.offset.map Offset.toText).getD []

/-- The form with a blank between date and time of day. -/
def spacedText (i : Instant) : Text :=
  i.readingText " " 4
    ++ (if i.microsecond = 0 then []
        else ("." : Text) ++ Text.padded 6 (Text.ofNat i.microsecond))
    ++ (i.offset.map Offset.toText).getD []

/-- The parts in order; seconds and microseconds that are zero are left out at the end. Then comes
whether the clock showed the reading again, and what the clock is called. -/
def describe (i : Instant) (again : Bool) (clock : Option Text) : Text :=
  let tail : List Nat :=
    if i.microsecond ≠ 0 then [i.second, i.microsecond]
    else if i.second ≠ 0 then [i.second] else []
  let parts : List Text :=
    ([i.date.year, i.date.month, i.date.day, i.hour, i.minute] ++ tail).map Text.ofNat
      ++ (if again then [("fold=1" : Text)] else [])
      ++ (clock.map fun name => [("tzinfo=" : Text) ++ name]).getD []
  ("datetime.datetime(" : Text) ++ Text.join ", " parts ++ (")" : Text)

def description (i : Instant) : Text := i.describe false (i.offset.map Offset.description)

end Instant

end SlidingCache
