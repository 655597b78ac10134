import SlidingCache.Number.Binary64

/-!
# Quotients rounded to 53 bits

`Binary64.Reaches num den e` says that a quotient is at least `2 ^ e`; `Binary64.reaches_floorLog2`
gives the greatest such exponent from below, so the mantissa of a quotient is never zero
(`Binary64.exists_nearest?`).

A quotient that is no integer is at least a part of its denominator away from one. As long as enough
bits are left for the fraction it does not get there by rounding (`Binary64.ceil_nearest?`).
-/

namespace SlidingCache

namespace Binary64

/-- The quotient is at least `2 ^ e`. -/
def Reaches (num den : Nat) (e : Int) : Prop :=
  den * Nat.pow 2 e.toNat ≤ num * Nat.pow 2 (-e).toNat

theorem Reaches.mono {num den : Nat} {e e' : Int} (h : Reaches num den e) (hle : e' ≤ e) :
    Reaches num den e' := by
  simp only [Reaches, Nat.pow_eq] at *
  -- from `e` to `e'` one side loses a power of two or the other one gains it
  obtain ⟨k, rfl⟩ : ∃ k : Nat, e = e' + k := ⟨(e - e').toNat, by omega⟩
  clear hle
  have hsplit : (e' + k).toNat + (-e').toNat = e'.toNat + (-(e' + k)).toNat + k := by omega
  have hpow : 2 ^ (e' + k).toNat * 2 ^ (-e').toNat
      = 2 ^ e'.toNat * 2 ^ (-(e' + k)).toNat * 2 ^ k := by
    rw [← Nat.pow_add, ← Nat.pow_add, ← Nat.pow_add, hsplit]
  have hk : 1 ≤ 2 ^ k := Nat.one_le_two_pow
  have hpos : 0 < 2 ^ (-(e' + k)).toNat := Nat.two_pow_pos _
  refine Nat.le_of_mul_le_mul_right ?_ hpos
  calc den * 2 ^ e'.toNat * 2 ^ (-(e' + k)).toNat
      ≤ den * 2 ^ e'.toNat * 2 ^ (-(e' + k)).toNat * 2 ^ k := Nat.le_mul_of_pos_right _ hk
    _ = den * 2 ^ (e' + k).toNat * 2 ^ (-e').toNat := by
      rw [Nat.mul_assoc den, Nat.mul_assoc den, ← hpow, Nat.mul_assoc]
    _ ≤ num * 2 ^ (-(e' + k)).toNat * 2 ^ (-e').toNat := Nat.mul_le_mul_right _ h
    _ = num * 2 ^ (-e').toNat * 2 ^ (-(e' + k)).toNat := by
      rw [Nat.mul_assoc, Nat.mul_comm (2 ^ _), Nat.mul_assoc]

/-- One less than the difference of the logarithms is always reached. -/
theorem reaches_log2_sub {num : Nat} (den : Nat) (hnum : num ≠ 0) :
    Reaches num den ((Nat.log2 num : Int) - Nat.log2 den - 1) := by
  generalize he : (Nat.log2 num : Int) - Nat.log2 den - 1 = e
  have hlow : 2 ^ Nat.log2 num ≤ num := Nat.log2_self_le hnum
  have hhigh : den < 2 ^ (Nat.log2 den + 1) := Nat.lt_log2_self
  have hexp : Nat.log2 den + 1 + e.toNat = Nat.log2 num + (-e).toNat := by omega
  calc den * 2 ^ e.toNat
      ≤ 2 ^ (Nat.log2 den + 1) * 2 ^ e.toNat := Nat.mul_le_mul_right _ (Nat.le_of_lt hhigh)
    _ = 2 ^ Nat.log2 num * 2 ^ (-e).toNat := by rw [← Nat.pow_add, ← Nat.pow_add, hexp]
    _ ≤ num * 2 ^ (-e).toNat := Nat.mul_le_mul_right _ hlow

theorem reaches_floorLog2 {num den : Nat} (hnum : num ≠ 0) :
    Reaches num den (floorLog2 num den) := by
  have hless := reaches_log2_sub den hnum
  simp only [floorLog2, Nat.pow_eq]
  generalize (Nat.log2 num : Int) - Nat.log2 den = e at hless ⊢
  by_cases hneg : e < 0
  · have h0 : e.toNat = 0 := by omega
    have habs : (-e).toNat = e.natAbs := by omega
    simp only [hneg, if_true]
    split
    · exact hless
    · rw [Reaches, h0, habs, Nat.pow_eq, Nat.pow_eq]; omega
  · have h0 : (-e).toNat = 0 := by omega
    simp only [hneg, if_false]
    split
    · exact hless
    · rw [Reaches, h0, Nat.pow_eq, Nat.pow_eq]; omega

/-- A quotient by less than a power of two. -/
theorem reaches_neg {num den k : Nat} (hnum : num ≠ 0) (hden : den ≤ Nat.pow 2 k) :
    Reaches num den (-k) := by
  have hleft : (-(k : Int)).toNat = 0 := by omega
  have hright : (-(-(k : Int))).toNat = k := by omega
  rw [Reaches, hleft, hright]
  calc den * 2 ^ 0 ≤ 2 ^ k := by rw [Nat.pow_zero, Nat.mul_one]; exact hden
    _ ≤ num * 2 ^ k := Nat.le_mul_of_pos_left _ (Nat.pos_of_ne_zero hnum)

theorem floorLog2_le {num den : Nat} : floorLog2 num den ≤ Nat.log2 num := by
  simp only [floorLog2]
  split <;> omega

/-- What is at least an integer stays so when it is rounded. -/
theorem le_roundHalfEven {num den c : Nat} (hden : 0 < den) (h : den * c ≤ num) :
    c ≤ roundHalfEven num den := by
  have hq : c ≤ num / den := (Nat.le_div_iff_mul_le hden).2 (by rwa [Nat.mul_comm])
  unfold roundHalfEven
  dsimp only
  split <;> omega

theorem one_le_roundAt {num den : Nat} {e : Int} (hden : 0 < den) (h : Reaches num den e) :
    1 ≤ roundAt num den e := by
  simp only [Reaches, Nat.pow_eq] at h
  simp only [roundAt, Nat.pow_eq]
  split
  · have h0 : e.toNat = 0 := by omega
    have habs : (-e).toNat = e.natAbs := by omega
    rw [h0, habs] at h
    exact le_roundHalfEven hden (by omega)
  · have h0 : (-e).toNat = 0 := by omega
    rw [h0] at h
    exact le_roundHalfEven (Nat.mul_pos hden (Nat.two_pow_pos _)) (by omega)

/-- A number that is not zero is at least one when it is rounded up. -/
theorem one_le_ceil {b : Binary64} (h : 1 ≤ b.mantissa) : 1 ≤ b.ceil := by
  simp only [ceil, ceilDiv, Nat.pow_eq]
  split
  · exact (Nat.one_le_div_iff (Nat.two_pow_pos _)).2 (by omega)
  · exact Nat.mul_pos h (Nat.two_pow_pos _)

/-- A quotient that is neither near zero nor near the greatest number has a nearest number, and
that is not zero. -/
theorem exists_nearest? {num den : Nat} (hnum : num ≠ 0) (hden : den ≠ 0)
    (hreach : Reaches num den (-1074)) (hlog : Nat.log2 num < 1022) :
    ∃ b, nearest? num den = some b ∧ 1 ≤ b.mantissa := by
  have hfloor : floorLog2 num den ≤ Nat.log2 num := floorLog2_le
  simp only [nearest?, hnum, hden, or_self, if_false, Nat.pow_eq]
  generalize he : max (floorLog2 num den - 52) (-1074) = e
  have hexp : Reaches num den e := by
    rcases Int.le_total (floorLog2 num den - 52) (-1074) with hle | hle
    · rw [show e = -1074 by omega]
      exact hreach
    · rw [show e = floorLog2 num den - 52 by omega]
      exact (reaches_floorLog2 hnum).mono (by omega)
  have hone := one_le_roundAt (Nat.pos_of_ne_zero hden) hexp
  have hsmall : e < 970 := by omega
  split
  · rw [if_neg (by simp only; omega)]
    exact ⟨_, rfl, Nat.two_pow_pos 52⟩
  · rw [if_neg (by simp only; omega)]
    exact ⟨_, rfl, hone⟩

/-! ### Exact ceilings -/

/-- What is at most an integer stays so when it is rounded. -/
theorem roundHalfEven_le {num den c : Nat} (hden : 0 < den) (h : num ≤ den * c) :
    roundHalfEven num den ≤ c := by
  have hsplit := Nat.div_add_mod num den
  unfold roundHalfEven
  dsimp only
  rcases Nat.lt_or_ge (num / den) c with hlt | hge
  · split <;> omega
  · -- the quotient is the integer itself, and nothing is left of it
    have hmul : den * c ≤ den * (num / den) := Nat.mul_le_mul_left den hge
    have hrest : num % den = 0 := by omega
    have hquot : num / den = c :=
      Nat.eq_of_mul_eq_mul_left hden (by omega : den * (num / den) = den * c)
    rw [if_pos (.inl (by omega))]
    exact Nat.le_of_eq hquot

/-- What is more than half above an integer is rounded to more than that. -/
theorem lt_roundHalfEven {num den c : Nat} (hden : 0 < den) (h : 2 * (den * c) + den < 2 * num) :
    c < roundHalfEven num den := by
  have hsplit := Nat.div_add_mod num den
  have hrest := Nat.mod_lt num hden
  unfold roundHalfEven
  dsimp only
  rcases Nat.lt_trichotomy (num / den) c with hlt | heq | hgt
  · have hmul : den * (num / den + 1) ≤ den * c := Nat.mul_le_mul_left den hlt
    rw [Nat.mul_add, Nat.mul_one] at hmul
    omega
  · rw [heq] at hsplit ⊢
    rw [if_neg (by omega)]
    exact Nat.lt_succ_self c
  · split <;> omega

theorem ceilDiv_eq {num den n : Nat} (hlow : den * n < num) (hhigh : num ≤ den * (n + 1)) :
    ceilDiv num den = n + 1 := by
  have hden : 0 < den := Nat.pos_of_ne_zero fun h => by simp [h] at hlow hhigh; omega
  rw [Nat.mul_add, Nat.mul_one] at hhigh
  refine Nat.div_eq_of_lt_le ?_ ?_
  · rw [Nat.mul_comm, Nat.mul_add, Nat.mul_one]
    omega
  · rw [Nat.mul_comm, Nat.mul_add, Nat.mul_add, Nat.mul_one]
    omega

theorem floorLog2_lt {num den k : Nat} (hnum : num ≠ 0) (h : num < den * Nat.pow 2 k) :
    floorLog2 num den < k := by
  refine Int.lt_of_not_ge fun hge => ?_
  have hreach : Reaches num den k := (reaches_floorLog2 hnum).mono hge
  have hup : (k : Int).toNat = k := Int.toNat_natCast k
  have hdown : (-(k : Int)).toNat = 0 := by omega
  rw [Reaches, hup, hdown] at hreach
  have hreach : den * Nat.pow 2 k ≤ num * 1 := hreach
  omega

/-- If `k` bits are left for the fraction, with twice `2 ^ k` above the denominator, a quotient above
`n` and not above `n + 1` stays so when it is rounded. -/
theorem ceil_nearest? {num den n k : Nat} (hlow : den * n < num) (hhigh : num ≤ den * (n + 1))
    (hk : 1 < k) (hden : den < 2 * Nat.pow 2 k) (hexp : max (floorLog2 num den - 52) (-1074) = -k) :
    ∃ b, nearest? num den = some b ∧ b.ceil = n + 1 := by
  have hpos : 0 < den := Nat.pos_of_ne_zero fun h => by simp [h] at hlow hhigh; omega
  have hneg : -(k : Int) < 0 := by omega
  have habs : (-(k : Int)).natAbs = k := by omega
  generalize hm : roundHalfEven (num * 2 ^ k) den = m
  have hround : roundAt num den (-k) = m := by
    rw [roundAt, if_pos hneg, habs]
    exact hm
  have hle : m ≤ 2 ^ k * (n + 1) := by
    rw [← hm]
    apply roundHalfEven_le hpos
    calc num * 2 ^ k ≤ den * (n + 1) * 2 ^ k := Nat.mul_le_mul_right _ hhigh
      _ = den * (2 ^ k * (n + 1)) := by rw [Nat.mul_assoc, Nat.mul_comm (n + 1)]
  have hlt : 2 ^ k * n < m := by
    rw [← hm]
    apply lt_roundHalfEven hpos
    calc 2 * (den * (2 ^ k * n)) + den
        = 2 * (den * n * 2 ^ k) + den := by rw [Nat.mul_comm (2 ^ k), Nat.mul_assoc]
      _ < 2 * (den * n * 2 ^ k) + 2 * 2 ^ k := Nat.add_lt_add_left hden _
      _ = 2 * ((den * n + 1) * 2 ^ k) := by rw [Nat.add_mul, Nat.one_mul, Nat.mul_add]
      _ ≤ 2 * (num * 2 ^ k) := Nat.mul_le_mul_left 2 (Nat.mul_le_mul_right _ hlow)
  have hnum : ¬(num = 0 ∨ den = 0) := by omega
  simp only [nearest?, if_neg hnum, hexp, hround]
  split
  · -- one bit more than fits: half the mantissa with twice the unit
    rename_i hfull
    obtain ⟨j, rfl⟩ : ∃ j, k = j + 1 := ⟨k - 1, by omega⟩
    have hfull : m = 2 * 2 ^ 52 := hfull
    have hpow : 2 ^ (j + 1) = 2 * 2 ^ j := Nat.pow_succ'
    rw [hpow, Nat.mul_assoc] at hlt hle
    have hneg : -((j + 1 : Nat) : Int) + 1 < 0 := by omega
    have habs : (-((j + 1 : Nat) : Int) + 1).natAbs = j := by omega
    rw [if_neg (by simp only; omega)]
    refine ⟨_, rfl, ?_⟩
    rw [ceil, if_pos hneg, habs]
    have hlt : 2 ^ j * n < 2 ^ 52 := by omega
    have hle : 2 ^ 52 ≤ 2 ^ j * (n + 1) := by omega
    exact ceilDiv_eq hlt hle
  · rw [if_neg (by simp only; omega)]
    refine ⟨_, rfl, ?_⟩
    rw [ceil, if_pos hneg, habs]
    exact ceilDiv_eq hlt hle

end Binary64

end SlidingCache
