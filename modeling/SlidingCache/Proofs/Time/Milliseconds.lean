import SlidingCache.Proofs.Number.Quotient
import SlidingCache.Time.Duration

/-!
# The quotient of a duration and a millisecond

The quotient is rounded to 53 bits and then up. It reaches far enough to be rounded to more than
zero, so a positive duration has at least one millisecond (`Duration.one_le_milliseconds`). Up to
`2 ^ 44` milliseconds nine bits are left for the fraction. That is enough for thousandths, and the
ceiling is exact (`Duration.milliseconds_eq`).
-/

namespace SlidingCache

namespace Duration

theorem exists_nearest? {d : Duration} (h : d.isPositive) :
    ∃ b, Binary64.nearest? d.us.toNat 1000 = some b ∧ 1 ≤ b.mantissa := by
  have hpos : 0 < d.us := by simpa [isPositive] using h
  have hnum : d.us.toNat ≠ 0 := by omega
  have hlog : Nat.log2 d.us.toNat < 1022 := by
    have hlt : d.us.toNat < 2 ^ 67 := by have := d.inRange.2; omega
    have := (Nat.log2_lt hnum).2 hlt
    omega
  have hreach : Binary64.Reaches d.us.toNat 1000 (-1074) :=
    (Binary64.reaches_neg hnum (by decide : 1000 ≤ Nat.pow 2 10)).mono (by omega)
  exact Binary64.exists_nearest? hnum (by decide) hreach hlog

theorem one_le_milliseconds {d : Duration} (h : d.isPositive) : 1 ≤ d.milliseconds := by
  obtain ⟨b, hb, hone⟩ := exists_nearest? h
  rw [milliseconds, hb]
  exact Binary64.one_le_ceil hone

/-- Up to `2 ^ 44` milliseconds the rounding of the quotient does no harm: they are the exact
ceiling. -/
theorem milliseconds_eq {d : Duration} (h : d.isPositive)
    (hle : d.us ≤ (Nat.pow 2 44 * 1000 : Nat)) :
    (d.milliseconds : Int) = (d.us + 999) / 1000 := by
  have hpos : 0 < d.us := by simpa [isPositive] using h
  have hle : d.us ≤ 2 ^ 44 * 1000 := hle
  by_cases htop : d.us = 2 ^ 44 * 1000
  · rw [milliseconds, htop]
    decide +kernel
  · obtain ⟨num, hnum⟩ : ∃ num : Nat, d.us = num := ⟨d.us.toNat, by omega⟩
    have hfloor : Binary64.floorLog2 num 1000 < 44 :=
      Binary64.floorLog2_lt (by omega) (by simp only [Nat.pow_eq]; omega)
    -- 44 bits before the point leave nine behind it, for thousandths
    obtain ⟨k, hk⟩ : ∃ k : Nat, max (Binary64.floorLog2 num 1000 - 52) (-1074) = -k :=
      ⟨(-max (Binary64.floorLog2 num 1000 - 52) (-1074)).toNat, by omega⟩
    have hnine : 2 ^ 9 ≤ 2 ^ k := Nat.pow_le_pow_right (by decide) (by omega)
    obtain ⟨b, hb, hceil⟩ := Binary64.ceil_nearest? (n := (num - 1) / 1000) (by omega) (by omega)
      (by omega) (by simp only [Nat.pow_eq]; omega) hk
    have hmilliseconds : d.milliseconds = b.ceil := by
      rw [milliseconds, hnum, Int.toNat_natCast, hb]
    rw [hmilliseconds, hceil, hnum]
    omega

end Duration

end SlidingCache
