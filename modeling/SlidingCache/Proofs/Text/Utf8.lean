import SlidingCache.Text.Utf8

/-!
# UTF-8 and back

The octets of a text without surrogates are decoded to that text (`Utf8.decode?_flatMap_octets`).
-/

namespace SlidingCache

theorem CodePoint.isSurrogate_eq_false_iff {c : CodePoint} :
    c.isSurrogate = false ↔ c.val < 0xD800 ∨ 0xDFFF < c.val := by
  simp [isSurrogate]
  omega

theorem CodePoint.ofNat?_val (c : CodePoint) : ofNat? c.val = some c := dif_pos c.lt

namespace Utf8

variable {c : CodePoint} {r : Bytes} {n least : Nat}

theorem toNat_ofNat (h : n < 256) : (UInt8.ofNat n).toNat = n := by
  simpa using Nat.mod_eq_of_lt h

theorem tail?_ofNat : tail? (UInt8.ofNat (0x80 + n % 0x40)) = some (n % 0x40) := by
  rw [tail?, toNat_ofNat (by omega), if_pos (by omega), Nat.add_sub_cancel_left]

theorem scalar?_val (hs : c.isSurrogate = false) (h : least ≤ c.val) :
    scalar? least c.val = some c := by
  have := CodePoint.isSurrogate_eq_false_iff.1 hs
  rw [scalar?, if_neg (by omega), CodePoint.ofNat?_val]

theorem two?_octets (hs : c.isSurrogate = false) (hlow : 0x80 ≤ c.val) (hhigh : c.val < 0x800) :
    two? (UInt8.ofNat (0xC0 + c.val / 0x40)) (UInt8.ofNat (0x80 + c.val % 0x40)) = some c := by
  have hn : (0xC0 + c.val / 0x40 - 0xC0) * 0x40 + c.val % 0x40 = c.val := by omega
  simp only [two?, toNat_ofNat (n := 0xC0 + c.val / 0x40) (by omega), tail?_ofNat]
  rw [if_neg (by omega)]
  exact (congrArg (scalar? _) hn).trans (scalar?_val hs hlow)

theorem three?_octets (hs : c.isSurrogate = false) (hlow : 0x800 ≤ c.val)
    (hhigh : c.val < 0x10000) :
    three? (UInt8.ofNat (0xE0 + c.val / 0x1000)) (UInt8.ofNat (0x80 + c.val / 0x40 % 0x40))
      (UInt8.ofNat (0x80 + c.val % 0x40)) = some c := by
  have hn : (0xE0 + c.val / 0x1000 - 0xE0) * 0x1000 + c.val / 0x40 % 0x40 * 0x40 + c.val % 0x40
      = c.val := by omega
  simp only [three?, toNat_ofNat (n := 0xE0 + c.val / 0x1000) (by omega), tail?_ofNat]
  rw [if_neg (by omega)]
  exact (congrArg (scalar? _) hn).trans (scalar?_val hs hlow)

theorem three_tails {a b d : Nat} (f : Nat → Nat → Nat → Option CodePoint) :
    (do
      let x ← tail? (UInt8.ofNat (0x80 + a % 0x40))
      let y ← tail? (UInt8.ofNat (0x80 + b % 0x40))
      let z ← tail? (UInt8.ofNat (0x80 + d % 0x40))
      f x y z) = f (a % 0x40) (b % 0x40) (d % 0x40) := by
  rw [tail?_ofNat, tail?_ofNat, tail?_ofNat]
  rfl

theorem four?_octets (hs : c.isSurrogate = false) (hlow : 0x10000 ≤ c.val) :
    four? (UInt8.ofNat (0xF0 + c.val / 0x40000)) (UInt8.ofNat (0x80 + c.val / 0x1000 % 0x40))
      (UInt8.ofNat (0x80 + c.val / 0x40 % 0x40)) (UInt8.ofNat (0x80 + c.val % 0x40)) = some c := by
  have hlt := c.lt
  have hn : (0xF0 + c.val / 0x40000 - 0xF0) * 0x40000 + c.val / 0x1000 % 0x40 * 0x1000
      + c.val / 0x40 % 0x40 * 0x40 + c.val % 0x40 = c.val := by omega
  have hfirst := toNat_ofNat (n := 0xF0 + c.val / 0x40000) (by omega)
  unfold four?
  rw [if_neg (by omega), hfirst]
  exact (three_tails fun x y z => scalar? 0x10000
    ((0xF0 + c.val / 0x40000 - 0xF0) * 0x40000 + x * 0x1000 + y * 0x40 + z)).trans
      ((congrArg _ hn).trans (scalar?_val hs hlow))

theorem decode?_octets (hs : c.isSurrogate = false) :
    decode? (c.octets ++ r) = (c :: ·) <$> decode? r := by
  have hlt := c.lt
  unfold CodePoint.octets
  dsimp only
  by_cases h1 : c.val < 0x80
  · have hbyte : CodePoint.ofByte (UInt8.ofNat c.val) = c := by
      ext; exact toNat_ofNat (by omega)
    rw [if_pos h1, List.singleton_append, decode?.eq_def]
    simp only [toNat_ofNat (n := c.val) (by omega), if_pos h1, hbyte]
  by_cases h2 : c.val < 0x800
  · rw [if_neg h1, if_pos h2]
    simp only [List.cons_append, List.nil_append]
    rw [decode?.eq_def]
    simp only [toNat_ofNat (n := 0xC0 + c.val / 0x40) (by omega)]
    rw [if_neg (by omega), if_pos (by omega)]
    simp only [two?_octets hs (by omega) h2]
    cases decode? r <;> rfl
  by_cases h3 : c.val < 0x10000
  · rw [if_neg h1, if_neg h2, if_pos h3]
    simp only [List.cons_append, List.nil_append]
    rw [decode?.eq_def]
    simp only [toNat_ofNat (n := 0xE0 + c.val / 0x1000) (by omega)]
    rw [if_neg (by omega), if_neg (by omega), if_pos (by omega)]
    simp only [three?_octets hs (by omega) h3]
    cases decode? r <;> rfl
  · rw [if_neg h1, if_neg h2, if_neg h3]
    simp only [List.cons_append, List.nil_append]
    rw [decode?.eq_def]
    simp only [toNat_ofNat (n := 0xF0 + c.val / 0x40000) (by omega)]
    rw [if_neg (by omega), if_neg (by omega), if_neg (by omega)]
    simp only [four?_octets hs (by omega)]
    cases decode? r <;> rfl

theorem decode?_flatMap_octets {t : Text} (hs : ∀ c ∈ t, c.isSurrogate = false) :
    decode? (t.flatMap CodePoint.octets) = some t := by
  induction t with
  | nil => rfl
  | cons c t ih =>
    rw [List.flatMap_cons, decode?_octets (hs c List.mem_cons_self),
      ih fun c hc => hs c (List.mem_cons_of_mem _ hc)]
    rfl

end Utf8

theorem Text.utf8?_eq {t : Text} (hs : ∀ c ∈ t, c.isSurrogate = false) :
    t.utf8? = some (t.flatMap CodePoint.octets) := by
  have hmap : t.mapM CodePoint.utf8? = some (t.map CodePoint.octets) := by
    induction t with
    | nil => rfl
    | cons c t ih =>
      rw [List.mapM_cons, CodePoint.utf8?, hs c List.mem_cons_self,
        ih fun c hc => hs c (List.mem_cons_of_mem _ hc)]
      rfl
  rw [utf8?, hmap]
  rfl

/-- Just the texts without surrogates have a form. -/
theorem Text.utf8?_eq_some_iff {t : Text} {bytes : Bytes} : t.utf8? = some bytes ↔
    (∀ c ∈ t, c.isSurrogate = false) ∧ bytes = t.flatMap CodePoint.octets := by
  constructor
  · intro h
    have hs : ∀ c ∈ t, c.isSurrogate = false := by
      obtain ⟨forms, hforms, -⟩ := Option.map_eq_some_iff.1 h
      clear h
      induction t generalizing forms with
      | nil => exact fun c hc => absurd hc List.not_mem_nil
      | cons d t ih =>
        rw [List.mapM_cons] at hforms
        obtain ⟨form, hform, hforms⟩ := Option.bind_eq_some_iff.1 hforms
        obtain ⟨rest, hrest, -⟩ := Option.bind_eq_some_iff.1 hforms
        intro c hc
        rcases List.mem_cons.1 hc with rfl | hc
        · unfold CodePoint.utf8? at hform
          split at hform
          · cases hform
          · rename_i hc
            exact Bool.eq_false_iff.2 hc
        · exact ih rest hrest c hc
    rw [utf8?_eq hs] at h
    exact ⟨hs, (Option.some.inj h).symm⟩
  · rintro ⟨hs, rfl⟩
    exact utf8?_eq hs

/-! ## ASCII -/

/-- The octet of an ASCII character. -/
def CodePoint.octet (c : CodePoint) : UInt8 := UInt8.ofNat c.val

theorem CodePoint.octets_of_isAscii {c : CodePoint} (h : c.isAscii) : c.octets = [c.octet] := by
  have hlt : c.val < 0x80 := by simpa [isAscii] using h
  simp [octets, hlt, octet]

theorem CodePoint.isSurrogate_of_isAscii {c : CodePoint} (h : c.isAscii) :
    c.isSurrogate = false := by
  have hlt : c.val < 0x80 := by simpa [isAscii] using h
  exact isSurrogate_eq_false_iff.2 (.inl (by omega))

namespace Text

variable {t : Text}

theorem flatMap_octets_of_isAscii (h : t.all CodePoint.isAscii) :
    t.flatMap CodePoint.octets = t.map CodePoint.octet := by
  induction t with
  | nil => rfl
  | cons c t ih =>
    simp only [List.all_cons, Bool.and_eq_true] at h
    rw [List.flatMap_cons, CodePoint.octets_of_isAscii h.1, ih h.2]
    rfl

theorem utf8?_of_isAscii (h : t.all CodePoint.isAscii) :
    t.utf8? = some (t.map CodePoint.octet) := by
  rw [utf8?_eq fun c hc => CodePoint.isSurrogate_of_isAscii (List.all_eq_true.1 h c hc),
    flatMap_octets_of_isAscii h]

theorem decode?_of_isAscii (h : t.all CodePoint.isAscii) :
    Utf8.decode? (t.map CodePoint.octet) = some t := by
  rw [← flatMap_octets_of_isAscii h]
  exact Utf8.decode?_flatMap_octets fun c hc =>
    CodePoint.isSurrogate_of_isAscii (List.all_eq_true.1 h c hc)

end Text

end SlidingCache
