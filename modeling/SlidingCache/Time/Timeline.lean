import SlidingCache.Time.Instant

/-!
# Values that tell the time

The end of a life is compared with the current time, which is moved to it and subtracted from it.
`Timeline` is what this takes of the values that tell the time. There are two kinds of them:

* instants, of which no more is known than the offset of the place where they were read;
* readings of known clocks (`Zoned`). How far a clock is ahead of UTC may depend on what it shows:
  it may be set forward in spring and back in autumn.

Two values are compared and subtracted by their values in UTC, unless they are readings of one
clock. These are compared and subtracted as they stand, and one is moved on its clock, as if this
were never set.
-/

namespace SlidingCache

/-! ## Timelines -/

/-- Values that tell the time. -/
class Timeline (ι : Type) where
  /-- The reading, with its offset. -/
  instant : ι → Instant
  /-- Whether two values are known to be readings of one clock. -/
  sameClock : ι → ι → Bool
  /-- A later or earlier value. -/
  add : ι → Duration → Except TimeFault ι
  description : ι → Text

namespace Timeline

variable {ι : Type} [Timeline ι]

def isAware (i : ι) : Bool := (instant i).isAware

/-- What two values are compared and subtracted by. -/
def sides (i j : ι) : Instant × Instant :=
  if sameClock i j then ((instant i).withoutOffset, (instant j).withoutOffset)
  else (instant i, instant j)

def le? (i j : ι) : Except TimeFault Bool := (sides i j).1.le? (sides i j).2

def since? (i j : ι) : Except TimeFault Duration := (sides i j).1.since? (sides i j).2

end Timeline

/-- Of the clock that showed an instant nothing is known. -/
instance : Timeline Instant where
  instant := id
  sameClock _ _ := false
  add := Instant.add
  description := Instant.description

/-! ## Clocks -/

/-- What there is to know of clocks: how far one is ahead of UTC when it shows a reading, for the
first or for the second time, if it tells, and what it is called. -/
class Clocks (κ : Type) where
  offset? : κ → Nat → Bool → Option Offset
  name : κ → Text

/-- A reading of a clock, or of none. -/
structure Zoned (κ : Type) where
  /-- What calendar and clock showed, in microseconds since the calendar began. -/
  reading : Nat
  clock : Option κ
  /-- Whether the clock has shown it before, and was set back since. -/
  again : Bool := false
  inCalendar : reading < calendarUs

namespace Zoned

variable {κ : Type}

instance [DecidableEq κ] : DecidableEq (Zoned κ) := fun i j =>
  decidable_of_iff (i.reading = j.reading ∧ i.clock = j.clock ∧ i.again = j.again) <| by
    cases i
    cases j
    simp

def add (i : Zoned κ) (d : Duration) : Except TimeFault (Zoned κ) :=
  if h : 0 ≤ i.reading + d.us ∧ i.reading + d.us < calendarUs then
    .ok { reading := (i.reading + d.us).toNat, clock := i.clock, inCalendar := by omega }
  else .error .outOfCalendar

variable [Clocks κ]

def offset (i : Zoned κ) : Option Offset := i.clock.bind (Clocks.offset? · i.reading i.again)

def instant (i : Zoned κ) : Instant := ⟨i.reading, i.offset, i.inCalendar⟩

def description (i : Zoned κ) : Text := i.instant.describe i.again (i.clock.map Clocks.name)

instance [DecidableEq κ] : Timeline (Zoned κ) where
  instant := instant
  sameClock i j := i.clock = j.clock
  add := add
  description := description

end Zoned

end SlidingCache
