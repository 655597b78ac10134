import SlidingCache.Text.Decimal

/-!
# Numerals of fixed width

A number below `10 ^ width`, written with zeros in front, is its digits one by one; and an octet in
hexadecimal is its two digits behind zeros.
-/

namespace SlidingCache.Text

/-- The last digits of a number, as many as the width says. -/
def digits : (width : Nat) → Nat → Text
  | 0, _ => []
  | width + 1, n => digits width (n / 10) ++ [CodePoint.ofDigit (n % 10)]

theorem digits_zero (width : Nat) :
    digits width 0 = List.replicate width (CodePoint.ofChar '0') := by
  induction width with
  | zero => rfl
  | succ width ih => rw [digits, Nat.zero_div, ih, List.replicate_succ']; rfl

theorem padded_concat (width : Nat) (t : Text) (c : CodePoint) :
    padded (width + 1) (t ++ [c]) = padded width t ++ [c] := by
  simp [padded]

theorem padded_ofNat (width : Nat) {n : Nat} (h : n < Nat.pow 10 (width + 1)) :
    padded (width + 1) (ofNat n) = digits (width + 1) n := by
  induction width generalizing n with
  | zero =>
    have hn : n < 10 := by simpa using h
    simp [ofNat, numeral_ten_lt hn, padded, digits, Nat.mod_eq_of_lt hn]
  | succ width ih =>
    by_cases hn : n < 10
    · rw [digits, Nat.div_eq_of_lt hn, digits_zero, Nat.mod_eq_of_lt hn, ofNat, numeral_ten_lt hn]
      rfl
    · have hdiv : n / 10 < Nat.pow 10 (width + 1) := (Nat.div_lt_iff_lt_mul (by decide)).2 h
      rw [ofNat, numeral_ten_ge (by omega), padded_concat]
      exact congrArg (· ++ [CodePoint.ofDigit (n % 10)]) (ih hdiv)

theorem all_isDigit_digits (width n : Nat) : (digits width n).all CodePoint.isDigit := by
  induction width generalizing n with
  | zero => rfl
  | succ width ih => simp [digits, ih, isDigit_ofDigit (Nat.mod_lt n (by decide))]

theorem isAscii_of_isDigit {c : CodePoint} (h : c.isDigit) : c.isAscii := by
  simp [CodePoint.isDigit, CodePoint.isAscii] at *
  omega

theorem all_isAscii_digits (width n : Nat) : (digits width n).all CodePoint.isAscii :=
  List.all_eq_true.2 fun c hc =>
    isAscii_of_isDigit (List.all_eq_true.1 (all_isDigit_digits width n) c hc)

/-- A numeral has no leading zero, unless it is that of zero. -/
theorem head?_ofNat {n : Nat} (h : n ≠ 0) : (ofNat n).head? ≠ some (CodePoint.ofChar '0') := by
  induction n using Nat.strongRecOn with
  | _ n ih =>
    by_cases hn : n < 10
    · rw [ofNat, numeral_ten_lt hn]
      intro heq
      have hval := congrArg CodePoint.val (Option.some.inj heq)
      simp only [CodePoint.ofDigit, hn, dif_pos] at hval
      exact h (Nat.add_left_cancel (m := n) (k := 0) hval)
    · have hfirst := ih (n / 10) (by omega) (by omega)
      rw [ofNat, numeral_ten_ge (by omega)]
      rw [ofNat] at hfirst
      cases hq : numeral 10 (n / 10) with
      | nil => exact absurd hq (ofNat_ne_nil (n / 10))
      | cons c r => rw [hq] at hfirst; exact hfirst

/-! ## Hexadecimal digits -/

theorem ofDigit_bounds (d : Nat) :
    0x30 ≤ (CodePoint.ofDigit d).val ∧ (CodePoint.ofDigit d).isAscii := by
  unfold CodePoint.ofDigit
  split
  · simp [CodePoint.isAscii]
    omega
  · simp [CodePoint.isAscii]
    omega

/-- The number of an octet in four digits. -/
theorem hex_four {n : Nat} (h : n < 256) :
    hex 4 n = [CodePoint.ofDigit 0, CodePoint.ofDigit 0, CodePoint.ofDigit (n / 16),
      CodePoint.ofDigit (n % 16)] := by
  have hnumeral : numeral 16 n = if n < 16 then [CodePoint.ofDigit n]
      else [CodePoint.ofDigit (n / 16), CodePoint.ofDigit (n % 16)] := by
    rw [numeral]
    by_cases hlt : n < 16
    · simp [hlt]
    · have hdiv : n / 16 < 16 := by omega
      rw [numeral]
      simp [hlt, hdiv]
  rw [hex, hnumeral]
  split
  · rename_i hlt
    rw [Nat.div_eq_of_lt hlt, Nat.mod_eq_of_lt hlt]
    rfl
  · rfl

end SlidingCache.Text
