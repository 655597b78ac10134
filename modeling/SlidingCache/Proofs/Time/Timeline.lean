import SlidingCache.Proofs.Time.Instant
import SlidingCache.Time.Timeline

/-!
# Time ahead

Of two values that can be compared at all (`Timeline.Comparable`) one lies ahead of the other by
some time (`Timeline.ahead`): the difference of their values in UTC, or that of their readings if
they are readings of one clock. To compare them is to ask for its sign, and to subtract them gives
it.

`LawfulTimeline` says what it is to move a value. Instants obey it, and so do readings of any clock.
-/

namespace SlidingCache

namespace Timeline

variable {ι : Type} [Timeline ι] {i j : ι} {d : Duration}

/-- Both values tell a point of time, or neither does. -/
def Comparable (i j : ι) : Prop := (sides i j).1.isAware = (sides i j).2.isAware

/-- How far one value lies ahead of another, in microseconds. -/
def ahead (i j : ι) : Int := (sides i j).1.utcUs - (sides i j).2.utcUs

/-- The time by which one value lies ahead of another. -/
def between (i j : ι) : Duration := (sides i j).1.since (sides i j).2

theorem comparable_of_isAware (hi : isAware i) (hj : isAware j) : Comparable i j := by
  unfold Comparable sides
  split
  · rfl
  · exact hi.trans hj.symm

theorem le?_eq (h : Comparable i j) : le? i j = .ok (decide (ahead i j ≤ 0)) := by
  rw [le?, Instant.le?_eq h]
  exact congrArg _ (decide_eq_decide.2 (by unfold ahead; omega))

theorem comparable_of_le? {b : Bool} (h : le? i j = .ok b) : Comparable i j := by
  obtain ⟨o, ho, -⟩ := Chain.bind_eq_ok.1 h
  exact (Instant.compare?_eq_ok_iff.1 ho).1

theorem since?_eq (h : Comparable i j) : since? i j = .ok (between i j) := if_pos h

/-- Different clocks are compared by UTC. -/
theorem ahead_of_not_sameClock (h : sameClock i j = false) :
    ahead i j = (instant i).utcUs - (instant j).utcUs := by
  simp [ahead, sides, h]

/-- One clock is compared with itself as it stands. -/
theorem ahead_of_sameClock (h : sameClock i j) :
    ahead i j = (instant i).reading - (instant j).reading := by
  simp [ahead, sides, h, Instant.withoutOffset, Instant.utcUs]

/-- Where the offsets are the same it does not matter which. -/
theorem ahead_of_offset (h : (instant i).offset = (instant j).offset) :
    ahead i j = (instant i).utcUs - (instant j).utcUs := by
  cases hclock : sameClock i j with
  | false => exact ahead_of_not_sameClock hclock
  | true => rw [ahead_of_sameClock hclock, Instant.utcUs_sub_utcUs h]

@[simp] theorem isAware_instant (i : Instant) : isAware i = i.isAware := rfl

@[simp] theorem le?_instant (i j : Instant) : le? i j = i.le? j := rfl

@[simp] theorem since?_instant (i j : Instant) : since? i j = i.since? j := rfl

end Timeline

/-- A value that is moved gets as far as it is moved. -/
class LawfulTimeline (ι : Type) [Timeline ι] : Prop where
  sameClock_comm (i j : ι) : Timeline.sameClock i j = Timeline.sameClock j i
  reading_add {i j : ι} {d : Duration} : Timeline.add i d = .ok j →
    ((Timeline.instant j).reading : Int) = (Timeline.instant i).reading + d.us
  /-- It stays on its clock. -/
  sameClock_add {i j : ι} {d : Duration} : Timeline.add i d = .ok j →
    ∀ k, Timeline.sameClock j k = Timeline.sameClock i k
  /-- If the clock is not known, its offset cannot change. -/
  offset_add {i j : ι} {d : Duration} : Timeline.add i d = .ok j →
    Timeline.sameClock j i ∨ (Timeline.instant j).offset = (Timeline.instant i).offset
  add_eq_error_iff {i : ι} {d : Duration} {e : TimeFault} : Timeline.add i d = .error e ↔
    e = .outOfCalendar ∧ ((Timeline.instant i).reading + d.us < 0 ∨
      (calendarUs : Int) ≤ (Timeline.instant i).reading + d.us)

instance : LawfulTimeline Instant where
  sameClock_comm _ _ := rfl
  reading_add h := (Instant.add_eq_ok_iff.1 h).1
  sameClock_add _ _ := rfl
  offset_add h := .inr (Instant.add_eq_ok_iff.1 h).2
  add_eq_error_iff := Instant.add_eq_error_iff

namespace Zoned

variable {κ : Type} {i j : Zoned κ} {d : Duration}

theorem of_add (h : i.add d = .ok j) :
    (j.reading : Int) = i.reading + d.us ∧ j.clock = i.clock := by
  unfold add at h
  split at h
  · cases h
    exact ⟨by simp only; omega, rfl⟩
  · cases h

theorem add_eq_error_iff {e : TimeFault} : i.add d = .error e ↔ e = .outOfCalendar ∧
    (i.reading + d.us < 0 ∨ (calendarUs : Int) ≤ i.reading + d.us) := by
  unfold add
  split
  · rename_i h
    exact ⟨fun h => (nomatch h), fun ⟨_, hout⟩ => by omega⟩
  · rename_i h
    rw [Except.error.injEq, eq_comm]
    exact ⟨fun he => ⟨he, by omega⟩, And.left⟩

instance [DecidableEq κ] [Clocks κ] : LawfulTimeline (Zoned κ) where
  sameClock_comm i j := decide_eq_decide.2 eq_comm
  reading_add h := (of_add h).1
  sameClock_add h k := decide_eq_decide.2 (by rw [(of_add h).2])
  offset_add h := .inl (decide_eq_true (of_add h).2)
  add_eq_error_iff := add_eq_error_iff

end Zoned

namespace Timeline

open LawfulTimeline

variable {ι : Type} [Timeline ι] [LawfulTimeline ι] {i j k : ι} {d : Duration}

theorem ahead_comm : ahead j i = - ahead i j := by
  cases h : sameClock i j with
  | false =>
    rw [ahead_of_not_sameClock h, ahead_of_not_sameClock ((sameClock_comm j i).trans h)]
    omega
  | true =>
    rw [ahead_of_sameClock h, ahead_of_sameClock ((sameClock_comm j i).trans h)]
    omega

/-- A value that was moved lies as far ahead of where it was. -/
theorem ahead_add (h : add i d = .ok j) : ahead j i = d.us := by
  have hreading := reading_add h
  rcases offset_add h with hclock | hoffset
  · rw [ahead_of_sameClock hclock]
    omega
  · rw [ahead_of_offset hoffset, Instant.utcUs_sub_utcUs hoffset]
    omega

theorem comparable_add (h : add i d = .ok j) : Comparable j i := by
  unfold Comparable sides
  rcases offset_add h with hclock | hoffset
  · rw [if_pos hclock]
    rfl
  · split
    · rfl
    · rw [Instant.isAware, Instant.isAware, hoffset]

/-- From where a value was moved to it lies so much nearer to another one, if its clock was not set
meanwhile or is the clock of the other. -/
theorem ahead_of_add (h : add i d = .ok j)
    (hpace : sameClock i k ∨ (instant j).offset = (instant i).offset) :
    ahead j k = ahead i k + d.us := by
  have hreading := reading_add h
  have hclock := sameClock_add h k
  cases hsame : sameClock i k with
  | true =>
    rw [ahead_of_sameClock hsame, ahead_of_sameClock (hclock.trans hsame)]
    omega
  | false =>
    have hoffset : (instant j).offset = (instant i).offset := hpace.resolve_left (by simp [hsame])
    have hutc := Instant.utcUs_sub_utcUs hoffset
    rw [ahead_of_not_sameClock hsame, ahead_of_not_sameClock (hclock.trans hsame)]
    omega

end Timeline

end SlidingCache
