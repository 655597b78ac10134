import Mathlib.Data.List.TakeWhile
import SlidingCache.Json.Token
import SlidingCache.Proofs.Text.Decimal

/-!
# Tokens are cut where they were put together

The text of a row of tokens is cut into these tokens again (`Token.ofText?_flatMap_text`), as long
as no two words stand next to each other. There is one lemma for each kind of token: punctuation
(`cut?_punctuation`), strings (`cut?_str`) and words (`cut?_word`). Numbers that are not integers
are left out.
-/

namespace SlidingCache.Json.Token

variable {c : CodePoint} {r t : Text} {done : Text}

theorem cut?_of_next? {cut cut' : Cut} {tokens : List Token}
    (h : cut.next? c = some (tokens, cut')) :
    cut? cut (c :: r) = (tokens ++ ·) <$> cut? cut' r := by
  simp only [cut?, h, Option.bind_eq_bind, Option.bind_some]
  cases cut? cut' r <;> rfl

/-- A character that completes no token. -/
theorem cut?_of_silent {cut cut' : Cut} (h : cut.next? c = some ([], cut')) :
    cut? cut (c :: r) = cut? cut' r := by
  rw [cut?_of_next? h]
  cases cut? cut' r <;> rfl

/-! ## Strings -/

theorem cut?_plain (hquote : c ≠ quoteMark) (hbackslash : c ≠ backslash)
    (hcontrol : ¬ c.val < 0x20) : cut? (.inside done) (c :: r) = cut? (.inside (c :: done)) r :=
  cut?_of_silent (by simp [Cut.next?, hquote, hbackslash, hcontrol])

theorem cut?_backslash : cut? (.inside done) (backslash :: r) = cut? (.escape done) r :=
  cut?_of_silent (by simp [Cut.next?, show backslash ≠ quoteMark by decide])

/-- An escape of one letter. -/
theorem cut?_letter {letter : CodePoint} (hletter : letter ≠ CodePoint.ofChar 'u')
    (hc : escapeLetter? letter = some c) :
    cut? (.escape done) (letter :: r) = cut? (.inside (c :: done)) r :=
  cut?_of_silent (by simp [Cut.next?, hletter, hc])

theorem hexDigit?_ofDigit {d : Nat} (h : d < 16) : (CodePoint.ofDigit d).hexDigit? = some d := by
  by_cases hd : d < 10
  · have hdigit : (CodePoint.ofDigit d).isDigit := Text.isDigit_ofDigit hd
    have hval : (CodePoint.ofDigit d).val = 0x30 + d := by simp [CodePoint.ofDigit, hd]
    simp only [CodePoint.hexDigit?, hdigit, if_true, hval, Nat.add_sub_cancel_left]
  · have hval : (CodePoint.ofDigit d).val = 0x57 + d := by
      simp [CodePoint.ofDigit, hd, Nat.mod_eq_of_lt h]
    have hdigit : (CodePoint.ofDigit d).isDigit = false := by
      simp only [CodePoint.isDigit, hval, Bool.and_eq_false_iff, decide_eq_false_iff_not]
      omega
    simp only [CodePoint.hexDigit?, hdigit, hval, Bool.false_eq_true, if_false]
    rw [if_neg (by omega), if_pos (by omega), Nat.add_sub_cancel_left]

/-- An escape by number, of a control character. -/
theorem cut?_unit (hcontrol : c.val < 0x20) :
    cut? (.escape done) (CodePoint.ofChar 'u' :: Text.hex 4 c.val ++ r) =
      cut? (.inside (c :: done)) r := by
  have hu : (Cut.escape done).next? (CodePoint.ofChar 'u') = some ([], .unit done none 0 0) := by
    simp [Cut.next?]
  have hdigit : ∀ {d digits value}, d < 16 → digits < 3 →
      (Cut.unit done none digits value).next? (CodePoint.ofDigit d) =
        some ([], .unit done none (digits + 1) (value * 16 + d)) := by
    intro d digits value hd hdigits
    simp [Cut.next?, hexDigit?_ofDigit hd, hdigits]
  have hlast : (Cut.unit done none 3 (c.val / 16)).next? (CodePoint.ofDigit (c.val % 16)) =
      some ([], .inside (c :: done)) := by
    have hvalue : c.val / 16 * 16 + c.val % 16 = c.val := by omega
    have hend : endUnit? done none c.val = some (.inside (c :: done)) := by
      simp only [endUnit?]
      rw [if_neg (by omega), if_neg (by omega), CodePoint.ofNat?, dif_pos c.lt]
      rfl
    simp [Cut.next?, hexDigit?_ofDigit (Nat.mod_lt c.val (by decide : 0 < 16)), hvalue, hend]
  rw [Text.hex_four (by omega)]
  simp only [List.cons_append, List.nil_append]
  rw [cut?_of_silent hu, cut?_of_silent (hdigit (by decide) (by decide)),
    cut?_of_silent (hdigit (by decide) (by decide)),
    cut?_of_silent (hdigit (by omega) (by decide))]
  simp only [Nat.zero_mul, Nat.zero_add]
  exact cut?_of_silent hlast

/-- A character as it stands in a string. -/
theorem cut?_escapedChar :
    cut? (.inside done) (escapedChar c ++ r) = cut? (.inside (c :: done)) r := by
  have letter : ∀ {l : CodePoint}, l ≠ CodePoint.ofChar 'u' → escapeLetter? l = some c →
      cut? (.inside done) ([backslash, l] ++ r) = cut? (.inside (c :: done)) r := by
    intro l hl hc
    rw [List.cons_append, List.cons_append, cut?_backslash]
    exact cut?_letter hl hc
  have control : ∀ {n : Nat} (h : n < 0x110000), c.val = n → c = ⟨n, h⟩ := by
    intro n h hval
    ext
    exact hval
  unfold escapedChar
  by_cases hquote : c = quoteMark
  · subst hquote
    exact letter (by decide) (by decide)
  rw [if_neg hquote]
  by_cases hbackslash : c = backslash
  · subst hbackslash
    exact letter (by decide) (by decide)
  rw [if_neg hbackslash]
  by_cases h8 : c.val = 8
  · rw [if_pos h8]
    exact letter (l := CodePoint.ofChar 'b') (by decide) (by rw [control (by decide) h8]; decide)
  rw [if_neg h8]
  by_cases h9 : c.val = 9
  · rw [if_pos h9]
    exact letter (l := CodePoint.ofChar 't') (by decide) (by rw [control (by decide) h9]; decide)
  rw [if_neg h9]
  by_cases h10 : c.val = 10
  · rw [if_pos h10]
    exact letter (l := CodePoint.ofChar 'n') (by decide) (by rw [control (by decide) h10]; decide)
  rw [if_neg h10]
  by_cases h12 : c.val = 12
  · rw [if_pos h12]
    exact letter (l := CodePoint.ofChar 'f') (by decide) (by rw [control (by decide) h12]; decide)
  rw [if_neg h12]
  by_cases h13 : c.val = 13
  · rw [if_pos h13]
    exact letter (l := CodePoint.ofChar 'r') (by decide) (by rw [control (by decide) h13]; decide)
  rw [if_neg h13]
  by_cases hcontrol : c.val < 0x20
  · rw [if_pos hcontrol]
    exact cut?_backslash.trans (cut?_unit hcontrol)
  · rw [if_neg hcontrol]
    exact cut?_plain hquote hbackslash hcontrol

theorem cut?_inside : cut? (.inside done) (t.flatMap escapedChar ++ quoteMark :: r) =
    (str (done.reverse ++ t) :: ·) <$> cut? .gap r := by
  induction t generalizing done with
  | nil =>
    have hend : (Cut.inside done).next? quoteMark = some ([str done.reverse], .gap) := by
      simp [Cut.next?]
    rw [List.flatMap_nil, List.nil_append, cut?_of_next? hend, List.append_nil]
    rfl
  | cons c t ih =>
    rw [List.flatMap_cons, List.append_assoc, cut?_escapedChar, ih]
    simp

theorem cut?_str : cut? .gap ((str t).text ++ r) = (str t :: ·) <$> cut? .gap r := by
  have hbegin : Cut.gap.next? quoteMark = some ([], .inside []) := rfl
  simp only [text, List.cons_append, List.append_assoc, List.nil_append]
  rw [cut?_of_silent hbegin, cut?_inside]
  rfl

/-! ## Punctuation -/

theorem cut?_punctuation {token : Token} (h : inGap? c = some ([token], .gap)) :
    cut? .gap (c :: r) = (token :: ·) <$> cut? .gap r := by
  rw [cut?_of_next? (show Cut.gap.next? c = some ([token], .gap) from h)]
  rfl

/-! ## Words -/

/-- Where a word is over: at the end, or before a character that stands in no word. -/
def EndsWord (r : Text) : Prop := ∀ c ∈ r.head?, isWordChar c = false

theorem cut?_word_of_endsWord {token : Token} (hword : ofWord? done.reverse = some token)
    (hr : EndsWord r) : cut? (.word done) r = (token :: ·) <$> cut? .gap r := by
  cases r with
  | nil => simp [cut?, Cut.finish?, hword]
  | cons c r =>
    have hc : isWordChar c = false := hr c rfl
    simp only [cut?, Cut.next?, hc, hword, Bool.false_eq_true, if_false]
    cases inGap? c with
    | none => rfl
    | some next =>
      simp only [Option.bind_eq_bind, Option.bind_some, Option.pure_def]
      cases cut? next.2 r <;> rfl

theorem cut?_word_append {w : Text} (hw : ∀ c ∈ w, isWordChar c) :
    cut? (.word done) (w ++ r) = cut? (.word (w.reverse ++ done)) r := by
  induction w generalizing done with
  | nil => rfl
  | cons c w ih =>
    have hc : (Cut.word done).next? c = some ([], .word (c :: done)) := by
      simp [Cut.next?, hw c List.mem_cons_self]
    rw [List.cons_append, cut?_of_silent hc, ih fun c hc => hw c (List.mem_cons_of_mem _ hc)]
    simp

theorem not_isBlank_of_isWordChar (h : isWordChar c) : isBlank c = false ∧ c ≠ quoteMark := by
  have hval : 0x2B ≤ c.val := by
    simp only [isWordChar, CodePoint.isAlphanumeric, CodePoint.isDigit, CodePoint.isUpper,
      CodePoint.isLower, Bool.or_eq_true, Bool.and_eq_true, decide_eq_true_eq] at h
    rcases h with ((h | rfl) | rfl) | rfl
    · omega
    all_goals decide
  refine ⟨?_, ?_⟩
  · simp only [isBlank, decide_eq_false_iff_not]
    omega
  · intro heq
    subst heq
    exact absurd hval (by decide)

theorem cut?_word {token : Token} {w : Text} (hne : w ≠ []) (hw : ∀ c ∈ w, isWordChar c)
    (hword : ofWord? w = some token) (hr : EndsWord r) :
    cut? .gap (w ++ r) = (token :: ·) <$> cut? .gap r := by
  cases w with
  | nil => exact absurd rfl hne
  | cons c w =>
    have hc := hw c List.mem_cons_self
    obtain ⟨hblank, hquote⟩ := not_isBlank_of_isWordChar hc
    have hbegin : Cut.gap.next? c = some ([], .word [c]) := by
      simp [Cut.next?, inGap?, hblank, hquote, hc]
    rw [List.cons_append, cut?_of_silent hbegin,
      cut?_word_append fun c hc => hw c (List.mem_cons_of_mem _ hc)]
    exact cut?_word_of_endsWord (by simpa using hword) hr

/-! ## Integers -/

theorem unsigned?_ofNat {negative : Bool} {n : Nat} :
    unsigned? negative (Text.ofNat n) = integer? negative n := by
  have hdigits := Text.isDigit_of_mem_ofNat n
  have hwhole : (Text.ofNat n).takeWhile CodePoint.isDigit = Text.ofNat n :=
    List.takeWhile_eq_self_iff.2 hdigits
  have hrest : (Text.ofNat n).dropWhile CodePoint.isDigit = [] :=
    List.dropWhile_eq_nil_iff.2 hdigits
  have hlead : ¬ ((Text.ofNat n).isEmpty ∨
      (1 < (Text.ofNat n).length ∧ (Text.ofNat n).head? = some (CodePoint.ofChar '0'))) := by
    rintro (hempty | ⟨hlength, hzero⟩)
    · exact Text.ofNat_ne_nil n (by simpa using hempty)
    · by_cases hn : n = 0
      · subst hn
        rw [Text.ofNat, Text.numeral_ten_lt (by decide)] at hlength
        exact absurd hlength (by simp)
      · exact Text.head?_ofNat hn hzero
  simp only [unsigned?, hwhole, hrest]
  rw [if_neg hlead, Text.foldl_pushDigit_ofNat]

theorem isWordChar_of_isDigit (h : c.isDigit) : isWordChar c := by
  simp [isWordChar, CodePoint.isAlphanumeric, h]

theorem isWordChar_of_mem_ofInt {n : Int} : ∀ c ∈ Text.ofInt n, isWordChar c := by
  cases n with
  | ofNat n => exact fun c hc => isWordChar_of_isDigit (Text.isDigit_of_mem_ofNat n c hc)
  | negSucc n =>
    intro c hc
    rcases List.mem_cons.1 hc with rfl | hc
    · decide
    · exact isWordChar_of_isDigit (Text.isDigit_of_mem_ofNat _ c hc)

theorem ofWord?_cons (hc : c.isLower = false) :
    ofWord? (c :: r) =
      if c = CodePoint.ofChar '-' then unsigned? true r else unsigned? false (c :: r) := by
  have hne : ∀ {x : CodePoint} {w : Text}, x.isLower → c :: r ≠ x :: w := by
    rintro x w hx ⟨⟩
    rw [hc] at hx
    cases hx
  have hnull : c :: r ≠ ("null" : Text) := hne rfl
  have htrue : c :: r ≠ ("true" : Text) := hne rfl
  have hfalse : c :: r ≠ ("false" : Text) := hne rfl
  rw [ofWord?, if_neg hnull, if_neg htrue, if_neg hfalse]

theorem ofWord?_ofInt {n : Int} (hlow : -9223372036854775808 ≤ n)
    (hhigh : n < 18446744073709551616) : ofWord? (Text.ofInt n) = some (int n) := by
  cases n with
  | ofNat n =>
    have hn : n < Nat.pow 2 64 := Int.ofNat_lt.1 hhigh
    have hinteger : integer? false n = some (int n) := by simp [integer?, hn]
    rw [← unsigned?_ofNat] at hinteger
    show ofWord? (Text.ofNat n) = _
    cases htext : Text.ofNat n with
    | nil => exact absurd htext (Text.ofNat_ne_nil n)
    | cons c r =>
      have hc : c.isDigit := Text.isDigit_of_mem_ofNat n c (htext ▸ List.mem_cons_self)
      have hdigit : c.isLower = false ∧ c ≠ CodePoint.ofChar '-' := by
        simp only [CodePoint.isDigit, Bool.and_eq_true, decide_eq_true_eq] at hc
        refine ⟨?_, ?_⟩
        · simp only [CodePoint.isLower, Bool.and_eq_false_iff, decide_eq_false_iff_not]
          omega
        · intro heq
          subst heq
          exact absurd hc.1 (by decide)
      rw [ofWord?_cons hdigit.1, if_neg hdigit.2, ← htext]
      exact hinteger
  | negSucc n =>
    have hn : n + 1 ≤ Nat.pow 2 63 := by
      have : (9223372036854775808 : Nat) = Nat.pow 2 63 := by decide
      omega
    have hinteger : integer? true (n + 1) = some (int (.negSucc n)) := by
      simp only [integer?, if_true, if_pos hn]
      rfl
    rw [← unsigned?_ofNat] at hinteger
    exact (ofWord?_cons (c := CodePoint.ofChar '-') rfl).trans ((if_pos rfl).trans hinteger)

theorem cut?_int {n : Int} (hlow : -9223372036854775808 ≤ n) (hhigh : n < 18446744073709551616)
    (hr : EndsWord r) : cut? .gap ((int n).text ++ r) = (int n :: ·) <$> cut? .gap r := by
  have hne : Text.ofInt n ≠ [] := by
    cases n with
    | ofNat n => exact Text.ofNat_ne_nil n
    | negSucc n => simp [Text.ofInt]
  exact cut?_word hne isWordChar_of_mem_ofInt (ofWord?_ofInt hlow hhigh) hr

/-! ## Rows of tokens -/

/-- Tokens that need something between them. -/
def isWord : Token → Bool
  | null | bool _ | int _ | float .. => true
  | _ => false

/-- What can be written and read back as it is. -/
def IsPlain : Token → Prop
  | int n => -9223372036854775808 ≤ n ∧ n < 18446744073709551616
  | float .. => False
  | _ => True

/-- No two words stand next to each other. -/
def Spaced : List Token → Prop
  | a :: b :: r => ¬ (a.isWord ∧ b.isWord) ∧ Spaced (b :: r)
  | _ => True

theorem endsWord_text {token : Token} (h : token.isWord = false) : EndsWord (token.text ++ r) := by
  cases token with
  | null | bool | int | float => cases h
  | str t =>
    intro c hc
    cases hc
    decide
  | _ =>
    intro c hc
    cases hc
    decide

theorem cut?_text {token : Token} (hplain : token.IsPlain) (hr : token.isWord → EndsWord r) :
    cut? .gap (token.text ++ r) = (token :: ·) <$> cut? .gap r := by
  cases token with
  | null => exact cut?_word (w := "null") (by decide) (by decide) rfl (hr rfl)
  | bool b =>
    cases b with
    | true => exact cut?_word (w := "true") (by decide) (by decide) rfl (hr rfl)
    | false => exact cut?_word (w := "false") (by decide) (by decide) rfl (hr rfl)
  | int n => exact cut?_int hplain.1 hplain.2 (hr rfl)
  | float => cases hplain
  | str t => exact cut?_str
  | beginObject | endObject | beginArray | endArray | colon | comma => exact cut?_punctuation rfl

/-- **The text of a row of tokens is cut into these tokens.** -/
theorem ofText?_flatMap_text {tokens : List Token} (hplain : ∀ token ∈ tokens, token.IsPlain)
    (hspaced : Spaced tokens) : ofText? (tokens.flatMap text) = some tokens := by
  rw [ofText?]
  induction tokens with
  | nil => rfl
  | cons token tokens ih =>
    have hends : token.isWord → EndsWord (tokens.flatMap text) := by
      intro hword
      cases tokens with
      | nil => rintro c ⟨⟩
      | cons next tokens =>
        have hnext : next.isWord = false := by
          simpa [hword] using hspaced.1
        exact endsWord_text hnext
    have htail : Spaced tokens := by
      cases tokens with
      | nil => exact trivial
      | cons next tokens => exact hspaced.2
    rw [List.flatMap_cons, cut?_text (hplain token List.mem_cons_self) hends,
      ih (fun token htoken => hplain token (List.mem_cons_of_mem _ htoken)) htail]
    rfl

end SlidingCache.Json.Token
