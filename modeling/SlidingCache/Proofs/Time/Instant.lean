import SlidingCache.Proofs.Chains
import SlidingCache.Proofs.Time.Milliseconds
import SlidingCache.Time.Instant

/-!
# Instants moved

What it takes to move an instant, and where it gets in UTC.
-/

namespace SlidingCache

namespace Duration

theorem isPositive_iff {d : Duration} : d.isPositive ↔ 0 < d.us := by simp [isPositive]

theorem us_of_ofMilliseconds {ms : Nat} {d : Duration} (h : ofMilliseconds ms = .ok d) :
    d.us = ms * 1000 := by
  simp only [ofMilliseconds, ofMicroseconds] at h
  split at h
  · cases h; rfl
  · cases h

theorem not_inRange_of_ofMilliseconds {ms : Nat} {e : TimeFault}
    (h : ofMilliseconds ms = .error e) : 86399999999999999999 < (ms : Int) * 1000 := by
  simp only [ofMilliseconds, ofMicroseconds] at h
  split at h
  · cases h
  · omega

end Duration

namespace Instant

variable {i j : Instant} {d : Duration}

theorem isAware_of_utc (h : i.offset = some .utc) : i.isAware := by
  rw [isAware, h]
  rfl

theorem utcUs_of_utc (h : i.offset = some .utc) : i.utcUs = i.reading := by
  simp [utcUs, h, Offset.utc]

/-- An instant that is read in UTC stays as it is. -/
theorem inUtc_of_utc (h : i.offset = some .utc) : i.inUtc = .ok i := by
  obtain ⟨reading, offset, hreading⟩ := i
  subst h
  refine (if_neg fun hnaive => ?_).trans ?_
  · simp [isAware] at hnaive
  · rw [utcUs_of_utc rfl]
    exact dif_pos ⟨Int.natCast_nonneg _, Int.ofNat_lt.2 hreading⟩

theorem offset_of_inUtc (h : i.inUtc = .ok j) : j.offset = some .utc := by
  unfold inUtc withReading at h
  split at h
  · cases h
  · split at h
    · cases h
      rfl
    · cases h

theorem le?_eq (haware : i.isAware = j.isAware) : i.le? j = .ok (decide (i.utcUs ≤ j.utcUs)) := by
  rw [le?, compare?, if_pos haware]
  show Except.ok (compare i.utcUs j.utcUs != .gt) = _
  cases ho : compare i.utcUs j.utcUs with
  | lt => rw [decide_eq_true (Int.le_of_lt (Int.compare_eq_lt.1 ho))]; rfl
  | eq => rw [decide_eq_true (Int.le_of_eq (Int.compare_eq_eq.1 ho))]; rfl
  | gt => rw [decide_eq_false (Int.not_le.2 (Int.compare_eq_gt.1 ho))]; rfl

theorem since?_eq (haware : i.isAware = j.isAware) : i.since? j = .ok (i.since j) := if_pos haware

/-- Where the offsets are the same it does not matter which. -/
theorem utcUs_sub_utcUs (h : i.offset = j.offset) : i.utcUs - j.utcUs = i.reading - j.reading := by
  rw [utcUs, utcUs, h]
  omega

theorem since_congr {k : Instant} (h : i.utcUs = j.utcUs) : i.since k = j.since k := by
  simp only [since, h]

theorem add_eq_ok_iff :
    i.add d = .ok j ↔ (j.reading : Int) = i.reading + d.us ∧ j.offset = i.offset := by
  have hj := j.inCalendar
  simp only [add, withReading]
  split
  · rename_i h
    rcases j with ⟨reading, offset, _⟩
    simp only [Except.ok.injEq, mk.injEq]
    constructor
    · rintro ⟨hr, rfl⟩
      exact ⟨by omega, rfl⟩
    · rintro ⟨hr, rfl⟩
      exact ⟨by omega, rfl⟩
  · rename_i h
    exact ⟨fun h => (nomatch h), fun ⟨hr, _⟩ => absurd ⟨by omega, by omega⟩ h⟩

theorem add_eq_error_iff {e : TimeFault} : i.add d = .error e ↔ e = .outOfCalendar ∧
    (i.reading + d.us < 0 ∨ (calendarUs : Int) ≤ i.reading + d.us) := by
  simp only [add, withReading]
  split
  · rename_i h
    exact ⟨fun h => (nomatch h), fun ⟨_, hout⟩ => by omega⟩
  · rename_i h
    rw [Except.error.injEq, eq_comm]
    exact ⟨fun he => ⟨he, by omega⟩, And.left⟩

theorem add_eq_error {e : TimeFault} (h : i.add d = .error e) :
    i.reading + d.us < 0 ∨ (calendarUs : Int) ≤ i.reading + d.us := (add_eq_error_iff.1 h).2

theorem utcUs_add (h : i.add d = .ok j) : j.utcUs = i.utcUs + d.us := by
  obtain ⟨hr, ho⟩ := add_eq_ok_iff.1 h
  simp only [utcUs, ho]
  omega

theorem isAware_add (h : i.add d = .ok j) : j.isAware = i.isAware := by
  rw [isAware, (add_eq_ok_iff.1 h).2, isAware]

theorem compare?_eq_ok_iff {o : Ordering} :
    i.compare? j = .ok o ↔ i.isAware = j.isAware ∧ compare i.utcUs j.utcUs = o := by
  unfold compare?
  split <;> simp [*]

end Instant

end SlidingCache
