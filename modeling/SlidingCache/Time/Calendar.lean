/-!
# The Gregorian calendar

Dates of the years 1 to 9999 and their day numbers, counted from 0 on 1 January of year 1.

* `Date.dayNumber` counts the days before a date, `Date.ofDayNumber` finds the date of a day;
* `Date.IsValid` is what makes a year, month and day a date.
-/

namespace SlidingCache

structure Date where
  year : Nat
  month : Nat
  day : Nat
  deriving DecidableEq, Inhabited

/-- The days of the calendar, which ends with the year 9999. -/
abbrev calendarDays : Nat := 3652059

def isLeapYear (y : Nat) : Bool := y % 4 = 0 ∧ (y % 100 ≠ 0 ∨ y % 400 = 0)

def monthLengths (leap : Bool) : List Nat :=
  [31, if leap then 29 else 28, 31, 30, 31, 30, 31, 31, 30, 31, 30, 31]

/-- The days before the first of January of a year. -/
def daysBeforeYear (y : Nat) : Nat := (y - 1) * 365 + (y - 1) / 4 - (y - 1) / 100 + (y - 1) / 400

/-- The month (counted from the given one) and the day of the month, both from one, of a day of the
year counted from zero. -/
def monthAndDay : List Nat → Nat → Nat → Nat × Nat
  | [], month, n => (month, n + 1)
  | length :: r, month, n =>
    if n < length then (month, n + 1) else monthAndDay r (month + 1) (n - length)

/-- The year of a day and the day of the year, counted from zero: whole periods of 400, 100, 4 and
1 years are taken off, of the centuries and the single years at most three. -/
def yearAndDay (n : Nat) : Nat × Nat :=
  let n400 := n / 146097
  let r := n % 146097
  let n100 := min (r / 36524) 3
  let r := r - n100 * 36524
  let n4 := r / 1461
  let r := r % 1461
  let n1 := min (r / 365) 3
  (400 * n400 + 100 * n100 + 4 * n4 + n1 + 1, r - n1 * 365)

namespace Date

structure IsValid (d : Date) : Prop where
  year : 1 ≤ d.year ∧ d.year ≤ 9999
  month : 1 ≤ d.month ∧ d.month ≤ 12
  day : 1 ≤ d.day ∧ d.day ≤ (monthLengths (isLeapYear d.year)).getD (d.month - 1) 0

instance (d : Date) : Decidable d.IsValid :=
  decidable_of_iff
    ((1 ≤ d.year ∧ d.year ≤ 9999) ∧ (1 ≤ d.month ∧ d.month ≤ 12)
      ∧ (1 ≤ d.day ∧ d.day ≤ (monthLengths (isLeapYear d.year)).getD (d.month - 1) 0))
    ⟨fun ⟨a, b, c⟩ => ⟨a, b, c⟩, fun ⟨a, b, c⟩ => ⟨a, b, c⟩⟩

def dayNumber (d : Date) : Nat :=
  daysBeforeYear d.year
    + (((monthLengths (isLeapYear d.year)).take (d.month - 1)).foldl (· + ·) 0 + (d.day - 1))

def ofDayNumber (n : Nat) : Date :=
  let (year, rest) := yearAndDay n
  let (month, day) := monthAndDay (monthLengths (isLeapYear year)) 1 rest
  ⟨year, month, day⟩

/-- The day of the week of a day number, Monday first. -/
def weekday (n : Nat) : Nat := n % 7

/-- The day number of the Monday of the first week of a year, the week of its first Thursday. A
number before the calendar cannot arise: year 1 begins with a Monday. -/
def firstMonday (year : Nat) : Nat :=
  let first := daysBeforeYear year
  let monday := first - weekday first
  if 3 < weekday first then monday + 7 else monday

/-- The weeks of a year: 53 if it begins with a Thursday, or with a Wednesday and a leap day. -/
def weeksOfYear (year : Nat) : Nat :=
  let first := weekday (daysBeforeYear year)
  if first = 3 ∨ (first = 2 ∧ isLeapYear year) then 53 else 52

/-- The date of a day of a week of a year, weeks and days counted from one. -/
def ofWeek? (year week day : Nat) : Option Date :=
  if 1 ≤ year ∧ year ≤ 9999 ∧ 1 ≤ week ∧ week ≤ weeksOfYear year ∧ 1 ≤ day ∧ day ≤ 7 then
    some (ofDayNumber (firstMonday year + (week - 1) * 7 + (day - 1)))
  else none

end Date

end SlidingCache
