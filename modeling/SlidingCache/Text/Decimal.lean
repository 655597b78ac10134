import SlidingCache.Text.Basic

/-!
# Decimal and hexadecimal numerals

`Text.ofNat` writes a number without leading zeros and `Text.natOf?` reads one back
(`Text.natOf?_ofNat`). `Text.padded` adds leading zeros up to a width.
-/

namespace SlidingCache

/-- The character of a digit below sixteen, letters in lower case. -/
def CodePoint.ofDigit (d : Nat) : CodePoint :=
  if h : d < 10 then ⟨0x30 + d, by omega⟩
  else ⟨0x57 + d % 16, by omega⟩

theorem CodePoint.digit?_ofDigit {d : Nat} (h : d < 10) : (ofDigit d).digit? = some d := by
  simp [ofDigit, h, digit?, isDigit]; omega

namespace Text

/-- The numeral of a number in a base up to sixteen, no leading zeros. -/
def numeral (base n : Nat) : Text :=
  if _h : n < base ∨ base < 2 then [CodePoint.ofDigit n]
  else numeral base (n / base) ++ [CodePoint.ofDigit (n % base)]
termination_by n
decreasing_by exact Nat.div_lt_self (by omega) (by omega)

def ofNat (n : Nat) : Text := numeral 10 n

def ofInt : Int → Text
  | .ofNat n => ofNat n
  | .negSucc n => CodePoint.ofChar '-' :: ofNat (n + 1)

/-- The numeral with zeros in front up to the width. -/
def padded (width : Nat) (t : Text) : Text :=
  List.replicate (width - t.length) (CodePoint.ofChar '0') ++ t

def hex (width n : Nat) : Text := padded width (numeral 16 n)

/-- One more digit at the end of a number. -/
def pushDigit (acc : Nat) (c : CodePoint) : Nat := acc * 10 + (c.val - 0x30)

/-- The number of a non-empty run of decimal digits. -/
def natOf? (t : Text) : Option Nat :=
  if !t.isEmpty && t.all CodePoint.isDigit then some (t.foldl pushDigit 0) else none

theorem numeral_ten_lt {n : Nat} (h : n < 10) : numeral 10 n = [CodePoint.ofDigit n] := by
  rw [numeral]; simp [h]

theorem numeral_ten_ge {n : Nat} (h : 10 ≤ n) :
    numeral 10 n = numeral 10 (n / 10) ++ [CodePoint.ofDigit (n % 10)] := by
  rw [numeral]; simp [show ¬ n < 10 by omega]

theorem isDigit_ofDigit {d : Nat} (h : d < 10) : (CodePoint.ofDigit d).isDigit := by
  simp [CodePoint.ofDigit, h, CodePoint.isDigit]; omega

theorem isDigit_of_mem_ofNat (n : Nat) : ∀ c ∈ ofNat n, c.isDigit := by
  induction n using Nat.strongRecOn with
  | _ n ih =>
    intro c hc
    by_cases h : n < 10
    · rw [ofNat, numeral_ten_lt h] at hc
      simp only [List.mem_singleton] at hc
      exact hc ▸ isDigit_ofDigit h
    · rw [ofNat, numeral_ten_ge (by omega)] at hc
      rcases List.mem_append.1 hc with hc | hc
      · exact ih (n / 10) (by omega) c hc
      · simp only [List.mem_singleton] at hc
        exact hc ▸ isDigit_ofDigit (by omega)

theorem ofNat_ne_nil (n : Nat) : ofNat n ≠ [] := by
  rw [ofNat, numeral]; split <;> simp

theorem foldl_pushDigit_ofNat (n : Nat) : (ofNat n).foldl pushDigit 0 = n := by
  induction n using Nat.strongRecOn with
  | _ n ih =>
    by_cases h : n < 10
    · rw [ofNat, numeral_ten_lt h]
      simp [pushDigit, CodePoint.ofDigit, h]
    · rw [ofNat, numeral_ten_ge (by omega), List.foldl_append]
      have := ih (n / 10) (by omega)
      rw [ofNat] at this
      rw [this]
      have hm : n % 10 < 10 := by omega
      simp [pushDigit, CodePoint.ofDigit, hm]
      omega

theorem natOf?_ofNat (n : Nat) : natOf? (ofNat n) = some n := by
  have h : (ofNat n).all CodePoint.isDigit := by simpa using isDigit_of_mem_ofNat n
  have h' : (ofNat n).isEmpty = false := by simpa using ofNat_ne_nil n
  simp [natOf?, h, h', foldl_pushDigit_ofNat]

end Text

end SlidingCache
