import Mathlib.Algebra.Order.Field.Power
import Mathlib.Algebra.Order.Round
import Mathlib.Data.Rat.Floor
import Mathlib.Tactic.Linarith
import Mathlib.Tactic.Positivity
import SlidingCache.Proofs.Number.Quotient

/-!
# The nearest number of 53 bits

`Binary64.IsRounding x b` says of a fraction `x` what it is to be rounded to `b`: no number of the
format is nearer, and of two that are equally near `b` is the one with the even mantissa.
`Binary64.isRounding_nearest?` says that `nearest?` rounds so.

That rounding keeps the order needs nothing else (`Binary64.IsRounding.value_le_value`): were the
smaller of two fractions rounded to the greater number, both would lie beyond the middle of the two
numbers, each on the wrong side of it.
-/

namespace SlidingCache

namespace Binary64

/-- What a number is worth. -/
def value (b : Binary64) : ℚ := b.mantissa * 2 ^ b.exponent

/-- A finite number of the format: 53 bits for the mantissa, 11 for the exponent. -/
structure IsNumber (b : Binary64) : Prop where
  mantissa_lt : b.mantissa < 2 ^ 53
  least : -1074 ≤ b.exponent
  greatest : b.exponent ≤ 971

/-- A fraction is rounded to a number: to the nearest, and half-way to the even one. -/
structure IsRounding (x : ℚ) (b : Binary64) : Prop where
  isNumber : b.IsNumber
  /-- The mantissa has all its bits, unless the exponent is the least. -/
  normal : 2 ^ 52 ≤ b.mantissa ∨ b.exponent = -1074
  nearest : ∀ c : Binary64, c.IsNumber → |x - b.value| ≤ |x - c.value|
  even : ∀ c : Binary64, c.IsNumber → c.value ≠ b.value → |x - c.value| = |x - b.value| →
    Even b.mantissa

/-! ## The order of fractions -/

/-- **Rounding keeps the order.** -/
theorem IsRounding.value_le_value {x y : ℚ} {a b : Binary64} (ha : IsRounding x a)
    (hb : IsRounding y b) (hlt : x < y) : a.value ≤ b.value := by
  refine le_of_not_gt fun hgt => ?_
  have hx := ha.nearest b hb.isNumber
  have hy := hb.nearest a ha.isNumber
  have hfar : (a.value + b.value) / 2 ≤ x := by
    rcases abs_cases (x - a.value) with h | h <;>
      rcases abs_cases (x - b.value) with h' | h' <;> linarith
  have hnear : y ≤ (a.value + b.value) / 2 := by
    rcases abs_cases (y - a.value) with h | h <;>
      rcases abs_cases (y - b.value) with h' | h' <;> linarith
  linarith

theorem ceilDiv_eq_ceil {num den : Nat} (hden : 0 < den) :
    (ceilDiv num den : ℤ) = ⌈(num : ℚ) / den⌉ := by
  have hpos : (0 : ℚ) < den := by exact_mod_cast hden
  have hsplit := Nat.div_add_mod (num + den - 1) den
  have hrest := Nat.mod_lt (num + den - 1) hden
  rw [eq_comm, Int.ceil_eq_iff, Int.cast_natCast]
  unfold ceilDiv
  generalize (num + den - 1) / den = q at *
  constructor
  · rw [lt_div_iff₀ hpos, sub_mul, one_mul, sub_lt_iff_lt_add]
    exact_mod_cast (by rw [Nat.mul_comm]; omega : q * den < num + den)
  · rw [div_le_iff₀ hpos]
    exact_mod_cast (by rw [Nat.mul_comm]; omega : num ≤ q * den)

/-- The number rounded up is the ceiling of what it is worth. -/
theorem ceil_eq (b : Binary64) : (b.ceil : ℤ) = ⌈b.value⌉ := by
  rw [ceil, value]
  split
  · rename_i hneg
    have hexp : b.exponent = -(b.exponent.natAbs : ℤ) := by omega
    rw [Nat.pow_eq, ceilDiv_eq_ceil (Nat.two_pow_pos _), hexp, zpow_neg, zpow_natCast,
      ← div_eq_mul_inv, Int.natAbs_neg, Int.natAbs_natCast, Nat.cast_pow, Nat.cast_ofNat]
  · rename_i hnonneg
    have hexp : b.exponent = (b.exponent.toNat : ℤ) := by omega
    rw [hexp, zpow_natCast, Int.toNat_natCast, Nat.pow_eq]
    exact_mod_cast (Int.ceil_natCast (R := ℚ) (b.mantissa * 2 ^ b.exponent.toNat)).symm

/-! ## Rounding to an integer -/

section
variable {num den : Nat}

/-- The rounded quotient is at most a half away, and if it is a half away it is even. -/
theorem abs_sub_roundHalfEven (hden : 0 < den) :
    |(num : ℚ) / den - roundHalfEven num den| ≤ 1 / 2 ∧
      (|(num : ℚ) / den - roundHalfEven num den| = 1 / 2 → Even (roundHalfEven num den)) := by
  have hpos : (0 : ℚ) < den := by exact_mod_cast hden
  have hquot : (num : ℚ) / den = (num / den : Nat) + (num % den : Nat) / (den : ℚ) := by
    rw [div_eq_iff hpos.ne', add_mul, div_mul_cancel₀ _ hpos.ne']
    exact_mod_cast (Nat.div_add_mod' num den).symm
  have hrest : (num % den : Nat) / (den : ℚ) < 1 := by
    rw [div_lt_one hpos]
    exact_mod_cast Nat.mod_lt num hden
  have hnonneg : (0 : ℚ) ≤ (num % den : Nat) / (den : ℚ) := by positivity
  rw [hquot]
  unfold roundHalfEven
  dsimp only
  generalize num / den = q
  generalize num % den = r at *
  split
  · rename_i hdown
    have hle : (r : ℚ) / den ≤ 1 / 2 := by
      rw [div_le_div_iff₀ hpos two_pos]
      exact_mod_cast (by omega : r * 2 ≤ 1 * den)
    rw [add_sub_cancel_left, abs_of_nonneg hnonneg]
    refine ⟨hle, fun hhalf => ?_⟩
    rw [div_eq_div_iff hpos.ne' two_ne_zero] at hhalf
    have hhalf : r * 2 = 1 * den := by exact_mod_cast hhalf
    exact Nat.even_iff.2 (by omega)
  · rename_i hup
    have hge : 1 / 2 ≤ (r : ℚ) / den := by
      rw [div_le_div_iff₀ two_pos hpos]
      exact_mod_cast (by omega : 1 * den ≤ r * 2)
    have hdist : (q : ℚ) + r / den - (q + 1 : Nat) = -(1 - r / den) := by push_cast; ring
    rw [hdist, abs_neg, abs_of_nonneg (by linarith)]
    refine ⟨by linarith, fun hhalf => ?_⟩
    have hhalf : (r : ℚ) / den = 1 / 2 := by linarith
    rw [div_eq_div_iff hpos.ne' two_ne_zero] at hhalf
    have hhalf : r * 2 = 1 * den := by exact_mod_cast hhalf
    exact Nat.even_iff.2 (by omega)

/-- No integer is nearer than the rounded quotient, and if another is as near, it is even. -/
theorem roundHalfEven_nearest (hden : 0 < den) (n : ℤ) :
    |(num : ℚ) / den - roundHalfEven num den| ≤ |(num : ℚ) / den - n| ∧
      (n ≠ roundHalfEven num den →
        |(num : ℚ) / den - n| = |(num : ℚ) / den - roundHalfEven num den| →
        Even (roundHalfEven num den)) := by
  obtain ⟨hle, heven⟩ := @abs_sub_roundHalfEven num den hden
  generalize (num : ℚ) / den = x at *
  generalize roundHalfEven num den = m at *
  by_cases hn : n = m
  · subst hn
    exact ⟨by simp, fun h => absurd rfl h⟩
  · -- different integers are at least one apart
    have hapart : (1 : ℚ) ≤ |(m : ℚ) - n| := by
      have : (1 : ℤ) ≤ |(m : ℤ) - n| := Int.one_le_abs (sub_ne_zero.2 (Ne.symm hn))
      exact_mod_cast this
    have htriangle : |(m : ℚ) - n| ≤ |x - m| + |x - n| := by
      rw [abs_sub_comm x m]
      exact abs_sub_le _ _ _
    refine ⟨by linarith, fun _ heq => heven (le_antisymm hle (by linarith))⟩

/-- Rounding at an exponent is rounding a quotient that is so many powers of two smaller. -/
theorem exists_roundAt (hden : 0 < den) (e : ℤ) : ∃ num' den' : Nat, 0 < den' ∧
    (num' : ℚ) / den' = num / den / 2 ^ e ∧ roundAt num den e = roundHalfEven num' den' := by
  rw [roundAt]
  split
  · rename_i hneg
    have hexp : e = -(e.natAbs : ℤ) := by omega
    refine ⟨_, _, hden, ?_, rfl⟩
    rw [hexp, zpow_neg, zpow_natCast, div_inv_eq_mul, Int.natAbs_neg, Int.natAbs_natCast,
      Nat.pow_eq]
    push_cast
    ring
  · rename_i hnonneg
    have hexp : e = (e.toNat : ℤ) := by omega
    refine ⟨_, _, Nat.mul_pos hden (Nat.two_pow_pos _), ?_, rfl⟩
    rw [hexp, zpow_natCast, Int.toNat_natCast, div_div]
    push_cast
    rfl

end

/-! ## Binades -/

section
variable {num den : Nat}

theorem two_zpow_eq (e : ℤ) : (2 : ℚ) ^ e = 2 ^ e.toNat / 2 ^ (-e).toNat := by
  rcases Int.le_total 0 e with h | h
  · rw [show (-e).toNat = 0 by omega, pow_zero, div_one, ← zpow_natCast, Int.toNat_of_nonneg h]
  · rw [show e.toNat = 0 by omega, pow_zero, one_div, ← zpow_natCast, ← zpow_neg,
      Int.toNat_of_nonneg (by omega), neg_neg]

theorem reaches_iff (hden : 0 < den) (e : ℤ) :
    Reaches num den e ↔ (2 : ℚ) ^ e ≤ (num : ℚ) / den := by
  have hpos : (0 : ℚ) < den := by exact_mod_cast hden
  rw [Reaches, two_zpow_eq, div_le_div_iff₀ (by positivity) hpos, Nat.pow_eq, Nat.pow_eq]
  constructor
  · intro h
    exact_mod_cast (by rwa [Nat.mul_comm] : 2 ^ e.toNat * den ≤ num * 2 ^ (-e).toNat)
  · intro h
    rw [Nat.mul_comm]
    exact_mod_cast h

theorem two_zpow_floorLog2_le (hnum : num ≠ 0) (hden : 0 < den) :
    (2 : ℚ) ^ floorLog2 num den ≤ (num : ℚ) / den :=
  (reaches_iff hden _).1 (reaches_floorLog2 hnum)

/-- One more than the difference of the logarithms is never reached. -/
theorem not_reaches_log2_sub (hden : den ≠ 0) :
    ¬ Reaches num den ((Nat.log2 num : ℤ) - Nat.log2 den + 1) := by
  generalize he : (Nat.log2 num : ℤ) - Nat.log2 den + 1 = e
  have hlow : 2 ^ Nat.log2 den ≤ den := Nat.log2_self_le hden
  have hhigh : num < 2 ^ (Nat.log2 num + 1) := Nat.lt_log2_self
  have hexp : Nat.log2 num + 1 + (-e).toNat = Nat.log2 den + e.toNat := by omega
  rw [Reaches, not_le, Nat.pow_eq, Nat.pow_eq]
  calc num * 2 ^ (-e).toNat
      < 2 ^ (Nat.log2 num + 1) * 2 ^ (-e).toNat := Nat.mul_lt_mul_of_pos_right hhigh (by positivity)
    _ = 2 ^ Nat.log2 den * 2 ^ e.toNat := by rw [← Nat.pow_add, ← Nat.pow_add, hexp]
    _ ≤ den * 2 ^ e.toNat := Nat.mul_le_mul_right _ hlow

theorem not_reaches_floorLog2 (hden : den ≠ 0) : ¬ Reaches num den (floorLog2 num den + 1) := by
  have hmore := @not_reaches_log2_sub num den hden
  simp only [floorLog2]
  generalize (Nat.log2 num : ℤ) - Nat.log2 den = e at hmore ⊢
  by_cases hneg : e < 0
  · have h0 : e.toNat = 0 := by omega
    have habs : (-e).toNat = e.natAbs := by omega
    simp only [hneg, if_true]
    split
    · rename_i hsmall
      rwa [Int.sub_add_cancel, Reaches, not_le, h0, habs, Nat.pow_eq, Nat.pow_eq, Nat.pow_zero,
        Nat.mul_one]
    · exact hmore
  · have h0 : (-e).toNat = 0 := by omega
    simp only [hneg, if_false]
    split
    · rename_i hsmall
      rwa [Int.sub_add_cancel, Reaches, not_le, h0, Nat.pow_eq, Nat.pow_eq, Nat.pow_zero,
        Nat.mul_one]
    · exact hmore

theorem lt_two_zpow_floorLog2 (hden : 0 < den) :
    (num : ℚ) / den < 2 ^ (floorLog2 num den + 1) := by
  rw [← not_le, ← reaches_iff hden]
  exact not_reaches_floorLog2 hden.ne'

end

/-! ## Rounding to 53 bits -/

section
variable {x : ℚ} {m : Nat} {e : ℤ} {b c : Binary64}

/-- A number with a smaller unit than the last of the 53 bits of a fraction is below all of them. -/
theorem IsNumber.value_lt (hc : c.IsNumber) (he : c.exponent < e) : c.value < 2 ^ (e + 52) := by
  have hmantissa : (c.mantissa : ℚ) < 2 ^ 53 := by exact_mod_cast hc.mantissa_lt
  calc c.value < 2 ^ 53 * 2 ^ c.exponent := mul_lt_mul_of_pos_right hmantissa (by positivity)
    _ = 2 ^ (c.exponent + 53) := by rw [zpow_add₀ two_ne_zero, mul_comm]; rfl
    _ ≤ 2 ^ (e + 52) := zpow_le_zpow_right₀ one_le_two (by omega)

/-- A number is a multiple of the unit, or a multiple stands between it and the fraction. -/
theorem IsNumber.exists_multiple (hc : c.IsNumber) (hx : e = -1074 ∨ 2 ^ (e + 52) ≤ x) :
    ∃ n : ℤ, c.value = n * 2 ^ e ∨ c.value < n * 2 ^ e ∧ n * 2 ^ e ≤ x := by
  rcases lt_or_ge c.exponent e with hlt | hge
  · have hleast := hc.least
    have hx : 2 ^ (e + 52) ≤ x := hx.resolve_left (by omega)
    have hbits : ((2 ^ 52 : ℤ) : ℚ) * 2 ^ e = 2 ^ (e + 52) := by
      rw [zpow_add₀ two_ne_zero, mul_comm]
      norm_cast
    exact ⟨2 ^ 52, .inr ⟨hbits ▸ hc.value_lt hlt, hbits ▸ hx⟩⟩
  · refine ⟨c.mantissa * 2 ^ (c.exponent - e).toNat, .inl ?_⟩
    have hexp : c.exponent = ((c.exponent - e).toNat : ℤ) + e := by omega
    have hpow : (2 : ℚ) ^ c.exponent = 2 ^ (c.exponent - e).toNat * 2 ^ e := by
      conv_lhs => rw [hexp, zpow_add₀ two_ne_zero, zpow_natCast]
    rw [value, hpow]
    push_cast
    ring

/-- The distance from a multiple of the unit is counted in units. -/
theorem abs_sub_mul_two_zpow (n : ℚ) : |x - n * 2 ^ e| = |x / 2 ^ e - n| * 2 ^ e := by
  have hpos : (0 : ℚ) < 2 ^ e := by positivity
  rw [← abs_of_pos hpos, ← abs_mul, abs_of_pos hpos, sub_mul, div_mul_cancel₀ _ hpos.ne']

/-- A fraction is rounded to the nearest multiple of the last unit of its 53 bits. -/
theorem isRounding_of_multiple (hb : b.IsNumber) (hnormal : 2 ^ 52 ≤ b.mantissa ∨ b.exponent = -1074)
    (hvalue : b.value = m * 2 ^ e) (heven : Even m → Even b.mantissa)
    (hx : e = -1074 ∨ 2 ^ (e + 52) ≤ x)
    (hm : ∀ n : ℤ, |x / 2 ^ e - m| ≤ |x / 2 ^ e - n| ∧
      (n ≠ m → |x / 2 ^ e - n| = |x / 2 ^ e - m| → Even m)) : IsRounding x b := by
  have hpos : (0 : ℚ) < 2 ^ e := by positivity
  have hle : ∀ n : ℤ, |x - b.value| ≤ |x - n * 2 ^ e| := by
    intro n
    rw [hvalue, abs_sub_mul_two_zpow, abs_sub_mul_two_zpow]
    exact mul_le_mul_of_nonneg_right (hm n).1 hpos.le
  -- a number that is no multiple of the unit is farther away than one
  have hfar : ∀ {c : Binary64} {n : ℤ}, c.value < n * 2 ^ e → n * 2 ^ e ≤ x →
      |x - b.value| < |x - c.value| := by
    intro c n hlt hnx
    calc |x - b.value| ≤ |x - n * 2 ^ e| := hle n
      _ = x - n * 2 ^ e := abs_of_nonneg (sub_nonneg.2 hnx)
      _ < x - c.value := sub_lt_sub_left hlt x
      _ ≤ |x - c.value| := le_abs_self _
  refine ⟨hb, hnormal, fun c hc => ?_, fun c hc hne heq => ?_⟩
  · obtain ⟨n, hn | ⟨hlt, hnx⟩⟩ := hc.exists_multiple hx
    · rw [hn]
      exact hle n
    · exact (hfar hlt hnx).le
  · obtain ⟨n, hn | ⟨hlt, hnx⟩⟩ := hc.exists_multiple hx
    · refine heven ((hm n).2 ?_ ?_)
      · intro hnm
        rw [hnm] at hn
        exact hne (hn.trans hvalue.symm)
      · rw [hn, hvalue, abs_sub_mul_two_zpow, abs_sub_mul_two_zpow] at heq
        exact mul_right_cancel₀ hpos.ne' heq
    · exact absurd heq (hfar hlt hnx).ne'

end

section
variable {num den : Nat} {b : Binary64}

/-- Where the 53 bits of a quotient end. -/
def lastUnit (num den : Nat) : ℤ := max (floorLog2 num den - 52) (-1074)

theorem le_of_lastUnit (hnum : num ≠ 0) (hden : 0 < den) :
    lastUnit num den = -1074 ∨ (2 : ℚ) ^ (lastUnit num den + 52) ≤ num / den := by
  unfold lastUnit
  rcases Int.le_total (floorLog2 num den - 52) (-1074) with h | h
  · exact .inl (max_eq_right h)
  · rw [max_eq_left h, Int.sub_add_cancel]
    exact .inr (two_zpow_floorLog2_le hnum hden)

/-- The mantissa has 53 bits at most, or it has just become a power of two. -/
theorem roundAt_le (hden : 0 < den) : roundAt num den (lastUnit num den) ≤ 2 ^ 53 := by
  obtain ⟨num', den', hden', hquot, hround⟩ := @exists_roundAt num den hden (lastUnit num den)
  have hpos : (0 : ℚ) < 2 ^ lastUnit num den := by positivity
  have hlt : (num' : ℚ) / den' < 2 ^ 53 := by
    rw [hquot, div_lt_iff₀ hpos]
    calc (num : ℚ) / den < 2 ^ (floorLog2 num den + 1) := lt_two_zpow_floorLog2 hden
      _ ≤ 2 ^ (53 + lastUnit num den) :=
        zpow_le_zpow_right₀ one_le_two (by unfold lastUnit; omega)
      _ = 2 ^ 53 * 2 ^ lastUnit num den := by rw [zpow_add₀ two_ne_zero]; rfl
  rw [hround]
  apply roundHalfEven_le hden'
  rw [div_lt_iff₀ (by exact_mod_cast hden')] at hlt
  rw [Nat.mul_comm]
  exact_mod_cast hlt.le

/-- If there are 53 bits, the mantissa has all of them. -/
theorem le_roundAt (hden : 0 < den) (h : (2 : ℚ) ^ (lastUnit num den + 52) ≤ num / den) :
    2 ^ 52 ≤ roundAt num den (lastUnit num den) := by
  obtain ⟨num', den', hden', hquot, hround⟩ := @exists_roundAt num den hden (lastUnit num den)
  have hpos : (0 : ℚ) < 2 ^ lastUnit num den := by positivity
  have hge : (2 : ℚ) ^ 52 ≤ (num' : ℚ) / den' := by
    rw [hquot, le_div_iff₀ hpos]
    calc (2 : ℚ) ^ 52 * 2 ^ lastUnit num den = 2 ^ (lastUnit num den + 52) := by
          rw [zpow_add₀ two_ne_zero, mul_comm]; rfl
      _ ≤ num / den := h
  rw [hround]
  apply le_roundHalfEven hden'
  rw [le_div_iff₀ (by exact_mod_cast hden')] at hge
  rw [Nat.mul_comm]
  exact_mod_cast hge

theorem nearest?_eq_some (hnum : num ≠ 0) (hden : 0 < den) (h : nearest? num den = some b) :
    b.exponent ≤ 971 ∧
      (roundAt num den (lastUnit num den) = 2 ^ 53 ∧ b = ⟨2 ^ 52, lastUnit num den + 1⟩ ∨
        roundAt num den (lastUnit num den) ≠ 2 ^ 53 ∧
          b = ⟨roundAt num den (lastUnit num den), lastUnit num den⟩) := by
  have hnot : ¬ (num = 0 ∨ den = 0) := by omega
  simp only [nearest?, if_neg hnot] at h
  split at h
  · rename_i hfull
    split at h
    · cases h
    · rename_i hexp
      cases h
      exact ⟨not_lt.1 hexp, .inl ⟨hfull, rfl⟩⟩
  · rename_i hfull
    split at h
    · cases h
    · rename_i hexp
      cases h
      exact ⟨not_lt.1 hexp, .inr ⟨hfull, rfl⟩⟩

/-- **Quotients are rounded to the nearest number**, half-way to the even one. -/
theorem isRounding_nearest? (hnum : num ≠ 0) (hden : 0 < den) (h : nearest? num den = some b) :
    IsRounding ((num : ℚ) / den) b := by
  have hle := @roundAt_le num den hden
  have hbits := le_of_lastUnit hnum hden
  have hnormal := hbits.symm.imp_left (le_roundAt hden)
  have hleast : -1074 ≤ lastUnit num den := le_max_right _ _
  obtain ⟨num', den', hden', hquot, hround⟩ := @exists_roundAt num den hden (lastUnit num den)
  have hnearest := @roundHalfEven_nearest num' den' hden'
  rw [hquot, ← hround] at hnearest
  obtain ⟨hgreatest, ⟨hfull, rfl⟩ | ⟨hfull, rfl⟩⟩ := nearest?_eq_some hnum hden h
  · refine isRounding_of_multiple ⟨by simp, by dsimp only; omega, hgreatest⟩ (.inl le_rfl) ?_
      (fun _ => Nat.even_pow.2 ⟨even_two, by decide⟩) hbits hnearest
    rw [value, hfull, zpow_add_one₀ two_ne_zero]
    push_cast
    ring
  · exact isRounding_of_multiple ⟨lt_of_le_of_ne hle hfull, hleast, hgreatest⟩ hnormal rfl id hbits
      hnearest

end

end Binary64

end SlidingCache
