import SlidingCache.Number.Binary64
import SlidingCache.Text.Decimal

/-!
# Durations

Whole microseconds, negative ones included, of less than a thousand million days. A duration has
three written forms: as a sum of days, seconds and microseconds (`Duration.description`), as a clock
reading with days in front (`Duration.clock`), and for stores that count milliseconds as
`Duration.milliseconds`, rounded up.
-/

namespace SlidingCache

/-- What can go wrong when instants and durations are combined. -/
inductive TimeFault where
  /-- The instant leaves the years 1 to 9999. -/
  | outOfCalendar
  /-- The duration has too many days. -/
  | tooLong (days : Int)
  /-- Comparing an instant that has a UTC offset with one that has none. -/
  | mixedComparison
  | mixedDifference
  /-- An instant without offset has no day before it in the calendar. -/
  | noDayBefore
  deriving DecidableEq

def TimeFault.message : TimeFault → Text
  | outOfCalendar => "date value out of range"
  | tooLong days =>
    -- days beyond 32 bits are not even named
    if -2147483648 ≤ days ∧ days ≤ 2147483647 then
      ("days=" : Text) ++ Text.ofInt days ++ ("; must have magnitude <= 999999999" : Text)
    else "Python int too large to convert to C int"
  | mixedComparison => "can't compare offset-naive and offset-aware datetimes"
  | mixedDifference => "can't subtract offset-naive and offset-aware datetimes"
  | noDayBefore => "year 0 is out of range"

/-- Microseconds of a second and of a day. -/
abbrev usPerSecond : Nat := 1000000

@[inherit_doc usPerSecond] abbrev usPerDay : Nat := 86400000000

structure Duration where
  us : Int
  inRange : -86399999913600000000 ≤ us ∧ us ≤ 86399999999999999999
  deriving DecidableEq

namespace Duration

def zero : Duration := ⟨0, by decide⟩

instance : Inhabited Duration := ⟨zero⟩

instance : LT Duration := ⟨fun a b => a.us < b.us⟩

instance : LE Duration := ⟨fun a b => a.us ≤ b.us⟩

instance (a b : Duration) : Decidable (a < b) := inferInstanceAs (Decidable (a.us < b.us))

instance (a b : Duration) : Decidable (a ≤ b) := inferInstanceAs (Decidable (a.us ≤ b.us))

instance : Min Duration := ⟨fun a b => if b < a then b else a⟩

theorem us_min (a b : Duration) : (min a b).us = min a.us b.us := by
  show (if b.us < a.us then b else a).us = _
  split <;> omega

def isPositive (d : Duration) : Bool := 0 < d.us

def ofMicroseconds (us : Int) : Except TimeFault Duration :=
  if h : -86399999913600000000 ≤ us ∧ us ≤ 86399999999999999999 then .ok ⟨us, h⟩
  else .error (.tooLong (us / usPerDay))

def ofMilliseconds (ms : Nat) : Except TimeFault Duration := ofMicroseconds (ms * 1000)

/-- The milliseconds of a positive duration, rounded up: the quotient is rounded to 53 bits first,
so beyond `2 ^ 44` milliseconds it may miss the exact ceiling. -/
def milliseconds (d : Duration) : Nat :=
  match Binary64.nearest? d.us.toNat 1000 with
  | some b => b.ceil
  | none => 0

/-! ## Written forms -/

/-- Days, seconds below a day and microseconds below a second; only the days may be negative. -/
def split (d : Duration) : Int × Nat × Nat :=
  let rest := (d.us % usPerDay).toNat
  (d.us / usPerDay, rest / usPerSecond, rest % usPerSecond)

/-- The parts that are not zero. -/
def description (d : Duration) : Text :=
  let (days, seconds, micros) := d.split
  let part (name : Text) (n : Int) : List Text :=
    if n = 0 then [] else [name ++ ("=" : Text) ++ Text.ofInt n]
  let parts := part "days" days ++ part "seconds" seconds ++ part "microseconds" micros
  ("datetime.timedelta(" : Text) ++ (if parts.isEmpty then ("0" : Text) else Text.join ", " parts)
    ++ (")" : Text)

/-- Hours, minutes and seconds, days in front if there are any, six digits of a second at the end if
they are not all zero. -/
def clock (d : Duration) : Text :=
  let (days, seconds, micros) := d.split
  let two (n : Nat) := Text.padded 2 (Text.ofNat n)
  (if days = 0 then [] else
    Text.ofInt days ++ (if days.natAbs = 1 then (" day, " : Text) else (" days, " : Text)))
    ++ Text.ofNat (seconds / 3600) ++ (":" : Text) ++ two (seconds / 60 % 60) ++ (":" : Text)
    ++ two (seconds % 60)
    ++ if micros = 0 then [] else ("." : Text) ++ Text.padded 6 (Text.ofNat micros)

end Duration

end SlidingCache
