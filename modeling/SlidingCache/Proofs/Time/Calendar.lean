import SlidingCache.Time.Calendar

/-!
# Days and dates

Every day of the calendar has a valid date (`Date.isValid_ofDayNumber`), and the number of that date
is the day again (`Date.dayNumber_ofDayNumber`). The year is found by taking whole periods off the
day (`yearAndDay_spec`), the month by taking whole months off the rest (`monthAndDay_spec`).
-/

namespace SlidingCache

/-! ## Years -/

theorem isLeapYear_iff {y : Nat} : isLeapYear y ↔ y % 4 = 0 ∧ (y % 100 ≠ 0 ∨ y % 400 = 0) := by
  simp [isLeapYear]

/-- What is taken off a day: `a` periods of 400 years, `b` of 100, `c` of 4 and `d` of one. Of the
centuries and of the single years there are three at most, and what is left is a day of the year. -/
structure Periods where
  a : Nat
  b : Nat
  c : Nat
  d : Nat
  rest : Nat
  b_le : b ≤ 3
  c_le : c ≤ 24
  d_le : d ≤ 3
  /-- The last day of a leap year comes after 365 others; the last years of most centuries have
  none. -/
  rest_le : rest < 365 ∨ rest = 365 ∧ d = 3 ∧ (c < 24 ∨ b = 3)

namespace Periods

variable (p : Periods)

def year : Nat := 400 * p.a + 100 * p.b + 4 * p.c + p.d + 1

def day : Nat := 146097 * p.a + 36524 * p.b + 1461 * p.c + 365 * p.d + p.rest

theorem daysBeforeYear_year :
    daysBeforeYear p.year = 146097 * p.a + 36524 * p.b + 1461 * p.c + 365 * p.d := by
  rcases p with ⟨a, b, c, d, rest, hb, hc, hd, -⟩
  simp only [daysBeforeYear, year, Nat.add_sub_cancel]
  have h4 : (400 * a + 100 * b + 4 * c + d) / 4 = 100 * a + 25 * b + c := by omega
  have h100 : (400 * a + 100 * b + 4 * c + d) / 100 = 4 * a + b := by omega
  have h400 : (400 * a + 100 * b + 4 * c + d) / 400 = a := by omega
  rw [h4, h100, h400]
  omega

theorem rest_lt : p.rest < (monthLengths (isLeapYear p.year)).foldl (· + ·) 0 := by
  have hleap : p.rest < 365 ∨ p.rest = 365 ∧ isLeapYear p.year := by
    rcases p with ⟨a, b, c, d, rest, hb, hc, hd, hrest⟩
    rw [isLeapYear_iff]
    simp only [year]
    omega
  cases h : isLeapYear p.year with
  | true => exact Nat.lt_of_le_of_lt (m := 365) (by omega) (by decide)
  | false => exact Nat.lt_of_lt_of_eq (m := 365) (by simp [h] at hleap; exact hleap) (by decide)

end Periods

/-- At most three periods of a length are taken off. -/
theorem min_div_spec (r length : Nat) (hpos : 0 < length) :
    ∃ k, min (r / length) 3 = k ∧ k ≤ 3 ∧ k * length ≤ r ∧ (k = 3 ∨ r < (k + 1) * length) := by
  refine ⟨min (r / length) 3, rfl, Nat.min_le_right _ _, ?_, ?_⟩
  · exact Nat.le_trans (Nat.mul_le_mul_right _ (Nat.min_le_left _ _)) (Nat.div_mul_le_self r length)
  · rcases Nat.lt_or_ge (r / length) 3 with hlt | hge
    · rw [Nat.min_eq_left (Nat.le_of_lt hlt)]
      exact .inr ((Nat.div_lt_iff_lt_mul hpos).1 (Nat.lt_succ_self _))
    · exact .inl (Nat.min_eq_right hge)

theorem yearAndDay_spec (n : Nat) :
    ∃ p : Periods, p.day = n ∧ yearAndDay n = (p.year, p.rest) := by
  have hr : n % 146097 < 146097 := by omega
  obtain ⟨b, hb, hble, hbmul, hblt⟩ := min_div_spec (n % 146097) 36524 (by omega)
  -- what is left of the century, and of its four years
  obtain ⟨q, hq⟩ : ∃ q, n % 146097 - b * 36524 = q := ⟨_, rfl⟩
  have hcentury : q < 36524 ∨ b = 3 ∧ q = 36524 := by omega
  have hc : q / 1461 ≤ 24 := by clear hb hblt; omega
  have hs : q % 1461 < 1461 := by clear hb hblt; omega
  obtain ⟨d, hd, hdle, hdmul, hdlt⟩ := min_div_spec (q % 1461) 365 (by omega)
  have hrest : q % 1461 - d * 365 < 365 ∨
      q % 1461 - d * 365 = 365 ∧ d = 3 ∧ (q / 1461 < 24 ∨ b = 3) := by
    clear hb hd hbmul hblt hq
    omega
  refine ⟨⟨n / 146097, b, q / 1461, d, q % 1461 - d * 365, hble, hc, hdle, hrest⟩, ?_, ?_⟩
  · simp only [Periods.day]
    clear hb hd hblt hdlt hcentury hrest
    omega
  · simp only [yearAndDay, hb, hq, hd, Periods.year]

/-! ## Months -/

theorem monthAndDay_spec {lengths : List Nat} (month : Nat) {n : Nat}
    (h : n < lengths.foldl (· + ·) 0) :
    ∃ i, i < lengths.length ∧ ∃ day, monthAndDay lengths month n = (month + i, day + 1) ∧
      day < lengths.getD i 0 ∧ (lengths.take i).foldl (· + ·) 0 + day = n := by
  simp only [← List.sum_eq_foldl] at *
  induction lengths generalizing month n with
  | nil => simp at h
  | cons length r ih =>
    rw [monthAndDay]
    split
    · rename_i hlt
      exact ⟨0, by simp, n, rfl, hlt, by simp⟩
    · rename_i hge
      have hrest : n - length < r.sum := by simp only [List.sum_cons] at h; omega
      obtain ⟨i, hi, day, hmonth, hday, hsum⟩ := ih (month + 1) hrest
      refine ⟨i + 1, by simpa using hi, day, ?_, by simpa using hday, ?_⟩
      · rw [hmonth, Nat.add_assoc, Nat.add_comm 1]
      · simp only [List.take_succ_cons, List.sum_cons]
        omega

/-! ## Dates -/

namespace Date

/-- The parts of the date of a day. -/
theorem ofDayNumber_spec (n : Nat) :
    ∃ (p : Periods) (i day : Nat), p.day = n ∧ ofDayNumber n = ⟨p.year, i + 1, day + 1⟩ ∧
      i < 12 ∧ day < (monthLengths (isLeapYear p.year)).getD i 0 ∧
      ((monthLengths (isLeapYear p.year)).take i).foldl (· + ·) 0 + day = p.rest := by
  obtain ⟨p, hday, hyear⟩ := yearAndDay_spec n
  obtain ⟨i, hi, day, hmonth, hlt, hsum⟩ := monthAndDay_spec 1 p.rest_lt
  refine ⟨p, i, day, hday, ?_, hi, hlt, hsum⟩
  simp only [ofDayNumber, hyear, hmonth, Nat.add_comm 1]

theorem isValid_ofDayNumber {n : Nat} (h : n < calendarDays) : (ofDayNumber n).IsValid := by
  obtain ⟨p, i, day, hday, hdate, hi, hlt, -⟩ := ofDayNumber_spec n
  rw [hdate]
  have hyear : p.year ≤ 9999 := by
    simp only [calendarDays, ← hday, Periods.day] at h
    simp only [Periods.year]
    have := p.b_le
    have := p.c_le
    have := p.d_le
    omega
  exact {
    year := ⟨Nat.succ_pos _, hyear⟩
    month := ⟨Nat.succ_pos _, hi⟩
    day := ⟨Nat.succ_pos _, hlt⟩ }

theorem dayNumber_ofDayNumber (n : Nat) : (ofDayNumber n).dayNumber = n := by
  obtain ⟨p, i, day, hday, hdate, -, -, hsum⟩ := ofDayNumber_spec n
  rw [hdate, ← hday]
  simp only [dayNumber, Nat.add_sub_cancel, hsum, p.daysBeforeYear_year,
    Periods.day]

end Date

end SlidingCache
