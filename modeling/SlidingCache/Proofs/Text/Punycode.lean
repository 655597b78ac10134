import SlidingCache.Text.Punycode

/-!
# Punycode read back

`Punycode.decode?_encode` follows the two stages of the form.

* The digits of a distance are read as that distance, whatever follows (`readDistances_digits`), so
  the list of distances is read back (`readDistances_writeDistances`).
* While the writer sweeps over the text for the code point `n`, the reader holds what the sweep has
  passed, up to `n`, and of the rest what lies below `n`. The pairs run up since the last insertion
  lead the reader to the place where the sweep is (`insertAll_sweep`).
-/

namespace SlidingCache.Punycode

/-! ## Digits -/

section
variable {d n bias place basic : Nat} {r : Text}

theorem val_digit (hd : d < 36) : (digit d).val = if d < 26 then 0x61 + d else 0x30 + (d - 26) := by
  unfold digit
  split
  · show 0x61 + d % 26 = _
    omega
  · show 0x30 + (d - 26) % 10 = _
    omega

theorem digit?_digit (hd : d < 36) : digit? (digit d) = some d := by
  have hval := val_digit hd
  simp only [digit?, CodePoint.isLower, CodePoint.isUpper, CodePoint.isDigit, Bool.and_eq_true,
    decide_eq_true_eq]
  split at hval
  · rw [if_pos (by omega)]
    exact congrArg some (by omega)
  · rw [if_neg (by omega), if_neg (by omega), if_pos (by omega)]
    exact congrArg some (by omega)

/-- The digits of a distance are read as the distance, and the numeral ends there. -/
theorem readDistances_digits {count weight value : Nat} :
    readDistances basic ⟨count, bias, place, weight, value⟩ (digits bias place n ++ r) = do
      let d := value + n * weight
      return d :: (← readDistances basic
        ⟨count + 1, adapt d (count == 0) (basic + count + 1), 0, 1, 0⟩ r) := by
  fun_induction digits bias place n generalizing weight value with
  | case1 place n h =>
    have hle := threshold_le place bias
    rw [List.singleton_append, readDistances, digit?_digit (by omega)]
    simp only [Option.bind_eq_bind, Option.bind_some, if_pos h]
  | case2 place n h radix =>
    rename_i ih
    have hle := threshold_le place bias
    have hone := one_le_threshold place bias
    rw [List.cons_append, readDistances]
    subst radix
    dsimp only at ih ⊢
    generalize threshold place bias = t at *
    have hmod : (n - t) % (36 - t) < 36 - t := Nat.mod_lt _ (by omega)
    -- the digit and the rest of the numeral add up to the distance
    have hsum : value + (t + (n - t) % (36 - t)) * weight + (n - t) / (36 - t) * (weight * (36 - t))
        = value + n * weight := by
      have hdiv : (n - t) % (36 - t) + (n - t) / (36 - t) * (36 - t) = n - t := Nat.mod_add_div' ..
      have hn : n = t + (n - t) % (36 - t) + (n - t) / (36 - t) * (36 - t) := by omega
      rw [Nat.mul_comm weight, ← Nat.mul_assoc, Nat.add_assoc, ← Nat.add_mul, ← hn]
    rw [digit?_digit (by omega)]
    simp only [Option.bind_eq_bind, Option.bind_some]
    rw [if_neg (by omega), ih, hsum]
    rfl

/-- What was written is read back. -/
theorem readDistances_writeDistances {count : Nat} {ds : List Nat} :
    readDistances basic ⟨count, bias, 0, 1, 0⟩ (writeDistances basic count bias ds) = some ds := by
  induction ds generalizing count bias with
  | nil => rfl
  | cons d ds ih =>
    rw [writeDistances, readDistances_digits]
    simp only [Nat.mul_one, Nat.zero_add, ih]
    rfl

/-- A digit is an ASCII letter or decimal digit, so no hyphen. -/
theorem isAlphanumeric_digit (hd : d < 36) : (digit d).isAlphanumeric := by
  have hval := val_digit hd
  simp only [CodePoint.isAlphanumeric, CodePoint.isLower, CodePoint.isUpper, CodePoint.isDigit,
    Bool.or_eq_true, Bool.and_eq_true, decide_eq_true_eq]
  split at hval <;> omega

theorem isAlphanumeric_digits {c : CodePoint} (h : c ∈ digits bias place n) :
    c.isAlphanumeric := by
  fun_induction digits bias place n with
  | case1 place n hlt =>
    have hle := threshold_le place bias
    rw [List.mem_singleton.1 h]
    exact isAlphanumeric_digit (by omega)
  | case2 place n hlt radix ih =>
    have hle := threshold_le place bias
    subst radix
    rcases List.mem_cons.1 h with rfl | h
    · have hmod : (n - threshold place bias) % (36 - threshold place bias)
          < 36 - threshold place bias := Nat.mod_lt _ (by omega)
      exact isAlphanumeric_digit (by omega)
    · exact ih h

theorem isAlphanumeric_writeDistances {count : Nat} {ds : List Nat} {c : CodePoint}
    (h : c ∈ writeDistances basic count bias ds) : c.isAlphanumeric := by
  induction ds generalizing count bias with
  | nil => exact absurd h List.not_mem_nil
  | cons d ds ih =>
    rw [writeDistances] at h
    rcases List.mem_append.1 h with h | h
    · exact isAlphanumeric_digits h
    · exact ih h

end

/-! ## The code points of a text -/

section
variable {n m : Nat} {l : List Nat} {t : Text}

theorem mem_insertSorted : m ∈ insertSorted n l ↔ m = n ∨ m ∈ l := by
  induction l with
  | nil => simp [insertSorted]
  | cons k l ih =>
    unfold insertSorted
    split
    · exact List.mem_cons
    · split
      · rename_i heq
        subst heq
        simp
      · rw [List.mem_cons, ih, List.mem_cons]
        exact or_left_comm

theorem pairwise_insertSorted (h : l.Pairwise (· < ·)) : (insertSorted n l).Pairwise (· < ·) := by
  induction l with
  | nil => exact List.pairwise_singleton _ _
  | cons k l ih =>
    obtain ⟨hk, hl⟩ := List.pairwise_cons.1 h
    unfold insertSorted
    split
    · rename_i hlt
      refine List.pairwise_cons.2 ⟨fun m hm => ?_, h⟩
      rcases List.mem_cons.1 hm with rfl | hm
      · exact hlt
      · exact Nat.lt_trans hlt (hk m hm)
    · split
      · exact h
      · refine List.pairwise_cons.2 ⟨fun m hm => ?_, ih hl⟩
        rcases mem_insertSorted.1 hm with rfl | hm
        · omega
        · exact hk m hm

theorem pairwise_extended : (extended t).Pairwise (· < ·) := by
  unfold extended
  induction t.filter (!·.isAscii) with
  | nil => exact List.Pairwise.nil
  | cons c r ih => exact pairwise_insertSorted ih

theorem mem_extended : m ∈ extended t ↔ 0x80 ≤ m ∧ ∃ c ∈ t, c.val = m := by
  have hmem : m ∈ extended t ↔ ∃ c ∈ t.filter (!·.isAscii), c.val = m := by
    unfold extended
    induction t.filter (!·.isAscii) with
    | nil => simp
    | cons c r ih =>
      rw [List.foldr_cons, mem_insertSorted, ih]
      simp [eq_comm]
  rw [hmem]
  simp only [List.mem_filter, CodePoint.isAscii, Bool.not_eq_true', decide_eq_false_iff_not]
  constructor
  · rintro ⟨c, ⟨hc, hascii⟩, rfl⟩
    exact ⟨by omega, c, hc, rfl⟩
  · rintro ⟨hle, c, hc, rfl⟩
    exact ⟨c, ⟨hc, by omega⟩, rfl⟩

end

/-! ## Distances -/

section
variable {n point pos run : Nat} {before t : Text} {ds : List Nat}

/-- A sweep emits one distance for each occurrence. -/
theorem length_sweep : (sweep n t run).1.length = t.countP (·.val = n) := by
  induction t generalizing run with
  | nil => rfl
  | cons c r ih =>
    rw [sweep, List.countP_cons]
    split
    · rename_i hlt
      rw [ih, if_neg (by simp; omega)]
      rfl
    · split
      · rename_i heq
        rw [List.length_cons, ih, if_pos (by simpa using heq)]
      · rename_i hne
        rw [ih, if_neg (by simpa using hne)]
        rfl

/-- An insertion at the place to which the distance leads. -/
theorem insertAll_cons {c : CodePoint} {after : Text} (hpoint : point ≤ c.val)
    (hplace : pos + run = (c.val - point) * ((before ++ after).length + 1) + before.length) :
    insertAll point pos (before ++ after) (run :: ds) =
      insertAll c.val (before.length + 1) (before ++ [c] ++ after) ds := by
  have hlt : before.length < (before ++ after).length + 1 := by
    rw [List.length_append]
    omega
  have hdiv : point + (pos + run) / ((before ++ after).length + 1) = c.val := by
    rw [hplace, Nat.mul_comm, Nat.mul_add_div (by omega), Nat.div_eq_of_lt hlt]
    omega
  have hmod : (pos + run) % ((before ++ after).length + 1) = before.length := by
    rw [hplace, Nat.mul_comm, Nat.mul_add_mod, Nat.mod_eq_of_lt hlt]
  have hchar : CodePoint.ofNat? c.val = some c := dif_pos c.lt
  rw [insertAll, hdiv, hmod, hchar]
  dsimp only
  rw [List.take_left, List.drop_left, List.append_assoc]
  rfl

/-- The reader in the midst of a sweep for `n`: `before` is what the sweep has passed, up to `n`.
The place of the last insertion and what has run up since lead to where the sweep is. -/
theorem insertAll_sweep (before t : Text) (ds : List Nat) (hpoint : point ≤ n)
    (hplace : pos + run =
      (n - point) * ((before ++ t.filter (·.val < n)).length + 1) + before.length) :
    ∃ point' pos', point' ≤ n ∧
      pos' + (sweep n t run).2 =
        (n - point') * ((before ++ t.filter (·.val ≤ n)).length + 1)
          + (before ++ t.filter (·.val ≤ n)).length ∧
      insertAll point pos (before ++ t.filter (·.val < n)) ((sweep n t run).1 ++ ds) =
        insertAll point' pos' (before ++ t.filter (·.val ≤ n)) ds := by
  induction t generalizing before point pos run with
  | nil =>
    rw [List.filter_nil, List.append_nil] at hplace
    refine ⟨point, pos, hpoint, ?_, rfl⟩
    rw [List.filter_nil, List.append_nil]
    exact hplace
  | cons c r ih =>
    have happend : ∀ l : Text, before ++ c :: l = before ++ [c] ++ l := fun l => by
      rw [List.append_assoc]
      rfl
    have hlength : (before ++ [c]).length = before.length + 1 := by
      rw [List.length_append]
      rfl
    rw [sweep]
    by_cases hlt : c.val < n
    · -- present before: one more pair
      have hbelow : (c :: r).filter (·.val < n) = c :: r.filter (·.val < n) :=
        List.filter_cons_of_pos (decide_eq_true hlt)
      have hupto : (c :: r).filter (·.val ≤ n) = c :: r.filter (·.val ≤ n) :=
        List.filter_cons_of_pos (decide_eq_true (Nat.le_of_lt hlt))
      rw [hbelow, happend (r.filter (·.val < n))] at hplace
      rw [if_pos hlt, hbelow, hupto, happend (r.filter (·.val < n)), happend (r.filter (·.val ≤ n))]
      apply ih (before ++ [c]) hpoint
      rw [← Nat.add_assoc, hplace, hlength]
      rfl
    have hbelow : (c :: r).filter (·.val < n) = r.filter (·.val < n) :=
      List.filter_cons_of_neg (by simpa using hlt)
    rw [hbelow] at hplace
    rw [if_neg hlt, hbelow]
    by_cases heq : c.val = n
    · -- an occurrence
      subst heq
      have hupto : (c :: r).filter (·.val ≤ c.val) = c :: r.filter (·.val ≤ c.val) :=
        List.filter_cons_of_pos (decide_eq_true (Nat.le_refl _))
      rw [if_pos rfl, hupto, happend (r.filter (·.val ≤ c.val))]
      dsimp only
      rw [List.cons_append, insertAll_cons hpoint hplace]
      apply ih (before ++ [c]) (Nat.le_refl _)
      rw [Nat.sub_self, Nat.zero_mul, Nat.zero_add, hlength]
    · -- not present yet
      have hupto : (c :: r).filter (·.val ≤ n) = r.filter (·.val ≤ n) :=
        List.filter_cons_of_neg (by simp; omega)
      rw [if_neg heq, hupto]
      exact ih before hpoint hplace

theorem length_filter_le : (t.filter (·.val ≤ n)).length =
    (t.filter (·.val < n)).length + t.countP (·.val = n) := by
  induction t with
  | nil => rfl
  | cons c r ih =>
    rw [List.countP_cons, List.filter_cons, List.filter_cons]
    simp only [decide_eq_true_eq]
    rcases Nat.lt_trichotomy c.val n with h | h | h
    · rw [if_pos (Nat.le_of_lt h), if_pos h, if_neg (Nat.ne_of_lt h), List.length_cons,
        List.length_cons, ih]
      omega
    · rw [if_pos (Nat.le_of_eq h), if_neg (by omega), if_pos h, List.length_cons, ih]
      omega
    · rw [if_neg (by omega), if_neg (by omega), if_neg (by omega), ih]
      rfl

/-- The reader between two sweeps: it holds what lies below the code point `least`, and `ns` are
the others that occur. -/
theorem insertAll_distancesFrom {least : Nat} {ns : List Nat} (hns : ns.Pairwise (· < ·))
    (hmem : ∀ m, m ∈ ns ↔ least ≤ m ∧ ∃ c ∈ t, c.val = m) (hpoint : point ≤ least)
    (hplace : pos + run = (least - point) * ((t.filter (·.val < least)).length + 1)) :
    insertAll point pos (t.filter (·.val < least))
      (distancesFrom t least (t.filter (·.val < least)).length run ns) = some t := by
  induction ns generalizing least point pos run with
  | nil =>
    have hall : t.filter (·.val < least) = t := by
      refine List.filter_eq_self.2 fun c hc => decide_eq_true (Nat.lt_of_not_le fun hle => ?_)
      exact List.not_mem_nil ((hmem c.val).2 ⟨hle, c, hc, rfl⟩)
    rw [hall]
    rfl
  | cons n ns ih =>
    obtain ⟨hn, hns⟩ := List.pairwise_cons.1 hns
    have hle : least ≤ n := ((hmem n).1 List.mem_cons_self).1
    have hsame : t.filter (·.val < least) = t.filter (·.val < n) := by
      refine List.filter_congr fun c hc => decide_eq_decide.2 ⟨?_, ?_⟩
      · intro h
        exact Nat.lt_of_lt_of_le h hle
      · intro h
        refine Nat.lt_of_not_le fun hge => ?_
        rcases List.mem_cons.1 ((hmem c.val).2 ⟨hge, c, hc, rfl⟩) with heq | hlater
        · omega
        · exact Nat.lt_asymm h (hn _ hlater)
    have hnext : t.filter (·.val ≤ n) = t.filter (·.val < n + 1) :=
      List.filter_congr fun c _ => decide_eq_decide.2 Nat.lt_succ_iff.symm
    rw [hsame] at hplace ⊢
    rw [distancesFrom]
    dsimp only
    have hrun : pos + (run + (n - least) * ((t.filter (·.val < n)).length + 1)) =
        (n - point) * ((([] : Text) ++ t.filter (·.val < n)).length + 1) + ([] : Text).length := by
      rw [← Nat.add_assoc, hplace, ← Nat.add_mul]
      simp only [List.nil_append, List.length_nil, Nat.add_zero]
      congr 1
      omega
    obtain ⟨point', pos', hpoint', hplace', heq⟩ :=
      insertAll_sweep [] t (distancesFrom t (n + 1) _ _ ns) (Nat.le_trans hpoint hle) hrun
    simp only [List.nil_append] at heq hplace'
    rw [heq, length_sweep, ← length_filter_le, hnext]
    rw [hnext] at hplace'
    refine ih hns (fun m => ⟨fun hm => ?_, fun ⟨hlt, hm⟩ => ?_⟩) (Nat.le_succ_of_le hpoint') ?_
    · exact ⟨hn m hm, ((hmem m).1 (List.mem_cons_of_mem _ hm)).2⟩
    · rcases List.mem_cons.1 ((hmem m).2 ⟨by omega, hm⟩) with rfl | hm
      · exact absurd hlt (Nat.lt_irrefl _)
      · exact hm
    · rw [← Nat.add_assoc, hplace', Nat.succ_sub hpoint', Nat.succ_mul]
      rfl

/-- The distances of a text lead from its ASCII characters back to it. -/
theorem insertAll_distances :
    insertAll 0x80 0 (t.filter CodePoint.isAscii) (distances t) = some t := by
  rw [distances, List.countP_eq_length_filter]
  exact insertAll_distancesFrom pairwise_extended (fun m => mem_extended) (Nat.le_refl _)
    (by rw [Nat.sub_self, Nat.zero_mul])

end

/-! ## The whole form -/

section
variable {numerals : Text}

/-- Backwards, the numerals are passed over. -/
theorem ne_hyphen_of_mem_reverse (h : hyphen ∉ numerals) :
    ∀ c ∈ numerals.reverse, decide (c ≠ hyphen) = true := by
  intro c hc
  apply decide_eq_true
  intro heq
  subst heq
  exact h (List.mem_reverse.1 hc)

theorem splitAtLastHyphen_of_not_mem (h : hyphen ∉ numerals) :
    splitAtLastHyphen numerals = ([], numerals) := by
  have hnil : numerals.reverse.dropWhile (· ≠ hyphen) = [] := by
    rw [← List.append_nil numerals.reverse,
      List.dropWhile_append_of_pos (ne_hyphen_of_mem_reverse h)]
    rfl
  rw [splitAtLastHyphen, hnil]

theorem splitAtLastHyphen_append (basic : Text) (h : hyphen ∉ numerals) :
    splitAtLastHyphen (basic ++ hyphen :: numerals) = (basic, numerals) := by
  have hpass := ne_hyphen_of_mem_reverse h
  have hreverse : (basic ++ hyphen :: numerals).reverse =
      numerals.reverse ++ hyphen :: basic.reverse := by
    simp
  have hdrop : (hyphen :: basic.reverse).dropWhile (· ≠ hyphen) = hyphen :: basic.reverse :=
    List.dropWhile_cons_of_neg (by simp)
  have htake : (hyphen :: basic.reverse).takeWhile (· ≠ hyphen) = [] :=
    List.takeWhile_cons_of_neg (by simp)
  rw [splitAtLastHyphen, hreverse, List.dropWhile_append_of_pos hpass,
    List.takeWhile_append_of_pos hpass, hdrop, htake, List.append_nil, List.reverse_reverse]
  exact congrArg (·, numerals) (List.reverse_reverse basic)

theorem isAscii_of_isAlphanumeric {c : CodePoint} (h : c.isAlphanumeric) : c.isAscii := by
  simp only [CodePoint.isAlphanumeric, CodePoint.isLower, CodePoint.isUpper, CodePoint.isDigit,
    Bool.or_eq_true, Bool.and_eq_true, decide_eq_true_eq] at h
  simp only [CodePoint.isAscii, decide_eq_true_eq]
  omega

/-- What the form of a text is made of: its ASCII characters, hyphens, letters and digits. -/
theorem mem_encode {t : Text} {c : CodePoint} (h : c ∈ encode t) :
    c ∈ t ∧ c.isAscii ∨ c = hyphen ∨ c.isAlphanumeric := by
  rcases List.mem_append.1 h with h | h
  · split at h
    · exact absurd h List.not_mem_nil
    · rcases List.mem_append.1 h with h | h
      · exact .inl (List.mem_filter.1 h)
      · exact .inr (.inl (List.mem_singleton.1 h))
  · exact .inr (.inr (isAlphanumeric_writeDistances h))

/-- An ASCII text only gets a hyphen. -/
theorem encode_of_isAscii {t : Text} (hne : t ≠ []) (h : t.all CodePoint.isAscii) :
    encode t = t ++ [hyphen] := by
  have hbasic : t.filter CodePoint.isAscii = t :=
    List.filter_eq_self.2 (List.all_eq_true.1 h)
  have hextended : extended t = [] := by
    refine List.eq_nil_iff_forall_not_mem.2 fun m hm => ?_
    obtain ⟨hle, c, hc, rfl⟩ := mem_extended.1 hm
    have hlt : c.val < 0x80 := by simpa [CodePoint.isAscii] using List.all_eq_true.1 h c hc
    omega
  have hwritten : ∀ count bias, writeDistances count 0 bias (distances t) = [] := by
    intro count bias
    rw [distances, hextended]
    rfl
  simp only [encode, hbasic, hwritten, List.isEmpty_eq_false_iff.2 hne, Bool.false_eq_true,
    if_false, List.append_nil]

/-- **A text is read back from its Punycode**, surrogates and all. -/
theorem decode?_encode (t : Text) : decode? (encode t) = some t := by
  have hascii : (encode t).all CodePoint.isAscii := by
    refine List.all_eq_true.2 fun c hc => ?_
    rcases mem_encode hc with ⟨-, h⟩ | rfl | h
    · exact h
    · decide
    · exact isAscii_of_isAlphanumeric h
  have hhyphen : hyphen ∉
      writeDistances (t.filter CodePoint.isAscii).length 0 72 (distances t) := by
    intro h
    have := isAlphanumeric_writeDistances h
    revert this
    decide
  have hsplit : splitAtLastHyphen (encode t) = (t.filter CodePoint.isAscii,
      writeDistances (t.filter CodePoint.isAscii).length 0 72 (distances t)) := by
    rw [encode]
    cases hbasic : t.filter CodePoint.isAscii with
    | nil =>
      rw [hbasic] at hhyphen
      exact splitAtLastHyphen_of_not_mem hhyphen
    | cons c r =>
      rw [hbasic] at hhyphen
      rw [List.isEmpty_cons, if_neg Bool.false_ne_true, List.append_assoc]
      exact splitAtLastHyphen_append _ hhyphen
  rw [decode?, hascii]
  simp only [Bool.not_true, Bool.false_eq_true, if_false, hsplit]
  rw [Reading.start, readDistances_writeDistances]
  exact insertAll_distances

end

end SlidingCache.Punycode
