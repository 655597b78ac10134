import SlidingCache.Key.Percent
import SlidingCache.Proofs.Key.Rule
import SlidingCache.Proofs.Text.Utf8

/-!
# Percent keys are legal and read back

An escaped key is one piece for every octet (`PercentKey.AllShown.pieces`), so reading it gives the
octets, and with them the text. A key without the marker has shown every octet as itself
(`PercentKey.AllShown.eq_of_not_mem`), so it was never escaped.
-/

namespace SlidingCache

/-! ## Escapes -/

namespace Percent

variable {isMarker : CodePoint → Bool} {m c : CodePoint} {b : UInt8} {r : Text}

/-- An escape is the marker and two digits of the octet, neither of them a small letter. -/
theorem exists_escape (m : CodePoint) (b : UInt8) : ∃ h l, escape m b = [m, h, l] ∧
    (h.hexDigit? = some (b.toNat / 16) ∧ (h.isDigit ∨ h.isUpper)) ∧
    (l.hexDigit? = some (b.toNat % 16) ∧ (l.isDigit ∨ l.isUpper)) := by
  have hdigit : ∀ d, d < 16 → ∀ c : CodePoint, c.val = (if d < 10 then 0x30 + d else 0x37 + d) →
      c.hexDigit? = some d ∧ (c.isDigit ∨ c.isUpper) := by
    intro d hd c hc
    simp only [CodePoint.hexDigit?, CodePoint.isDigit, CodePoint.isUpper, Bool.and_eq_true,
      decide_eq_true_eq]
    split at hc
    · rw [if_pos (by omega)]
      exact ⟨congrArg some (by omega), .inl (by omega)⟩
    · rw [if_neg (by omega), if_pos (by omega)]
      exact ⟨congrArg some (by omega), .inr (by omega)⟩
  have hb := b.toNat_lt_size
  simp only [UInt8.size] at hb
  refine ⟨_, _, rfl, hdigit _ (by omega) _ ?_, hdigit _ (by omega) _ ?_⟩
  · dsimp only
    split <;> dsimp only <;> omega
  · dsimp only
    split <;> dsimp only <;> omega

theorem pieces_escape (hm : isMarker m) :
    pieces isMarker (escape m b ++ r) = .octet b :: pieces isMarker r := by
  obtain ⟨h, l, heq, ⟨hh, -⟩, hl, -⟩ := exists_escape m b
  have hoctet : octet? isMarker m h l = some b := by
    simp only [octet?, hm, hh, hl, Bool.not_true, Bool.false_eq_true, if_false]
    have hsum : b.toNat / 16 * 16 + b.toNat % 16 = b.toNat := Nat.div_add_mod' ..
    show some (UInt8.ofNat _) = some b
    rw [hsum, UInt8.ofNat_toNat]
  simp only [heq, List.cons_append, List.nil_append, pieces, hoctet]

theorem pieces_cons (hc : isMarker c = false) :
    pieces isMarker (c :: r) = .ofChar isMarker c :: pieces isMarker r := by
  cases r with
  | nil => rfl
  | cons h r =>
    cases r with
    | nil => rfl
    | cons l r =>
      have hnone : octet? isMarker c h l = none := by simp [octet?, hc]
      simp only [pieces, hnone]

theorem assemble?_map_octet {bytes : Bytes} (run : Bytes) :
    assemble? run (bytes.map .octet) = Utf8.decode? (run.reverse ++ bytes) := by
  induction bytes generalizing run with
  | nil => rw [List.map_nil, assemble?, List.append_nil]
  | cons b bytes ih =>
    rw [List.map_cons, assemble?, ih, List.reverse_cons, List.append_assoc, List.singleton_append]

end Percent

/-! ## The octets of a key -/

namespace PercentKey

variable {b : UInt8} {bytes : Bytes} {c : CodePoint} {raw key : Text}

theorem isChar_of_isUnreserved (h : isUnreserved c) : StoreKey.isChar c := by
  simp only [isUnreserved, StoreKey.isChar, StoreKey.isSegmentChar, Bool.or_eq_true] at *
  rcases h with ((h | h) | h) | h <;> simp [h]

theorem isAscii_of_isUnreserved (h : isUnreserved c) : c.isAscii := by
  simp only [isUnreserved, CodePoint.isAlphanumeric, Bool.or_eq_true, beq_iff_eq] at h
  rcases h with ((h | rfl) | rfl) | rfl
  · simp [CodePoint.isDigit, CodePoint.isUpper, CodePoint.isLower, CodePoint.isAscii] at *
    omega
  all_goals rfl

theorem isUnreserved_of_isDigit (h : c.isDigit ∨ c.isUpper) : isUnreserved c := by
  rcases h with h | h <;> simp [isUnreserved, CodePoint.isAlphanumeric, h]

/-- The two ways to show an octet: as itself, or as an escape. -/
def Shown (b : UInt8) (t : Text) : Prop :=
  isUnreserved (CodePoint.ofByte b) ∧ t = [CodePoint.ofByte b] ∨ t = Percent.escape marker b

theorem shown_octet (b : UInt8) : Shown b (octet b) := by
  unfold octet
  split
  · rename_i hb
    exact .inl ⟨hb, rfl⟩
  · exact .inr rfl

theorem shown_endOctet (b : UInt8) : Shown b (endOctet b) := by
  unfold endOctet
  split
  · exact .inr rfl
  · exact shown_octet b

theorem Shown.isChar {t : Text} (h : Shown b t) : ∀ c ∈ t, StoreKey.isChar c := by
  intro c hc
  rcases h with ⟨hb, rfl⟩ | rfl
  · rw [List.mem_singleton.1 hc]
    exact isChar_of_isUnreserved hb
  · obtain ⟨h, l, heq, ⟨-, hh⟩, -, hl⟩ := Percent.exists_escape marker b
    rw [heq] at hc
    simp only [List.mem_cons, List.not_mem_nil, or_false] at hc
    rcases hc with rfl | rfl | rfl
    · decide
    · exact isChar_of_isUnreserved (isUnreserved_of_isDigit hh)
    · exact isChar_of_isUnreserved (isUnreserved_of_isDigit hl)

theorem Shown.eq_of_not_mem {t : Text} (h : Shown b t) (hmem : marker ∉ t) :
    t = [CodePoint.ofByte b] ∧ isUnreserved (CodePoint.ofByte b) := by
  rcases h with ⟨hb, rfl⟩ | rfl
  · exact ⟨rfl, hb⟩
  · exact absurd List.mem_cons_self hmem

/-- An octet takes a character, and more than one if it is escaped. -/
theorem Shown.length {t : Text} (h : Shown b t) : 1 ≤ t.length ∧ (marker ∈ t → 1 < t.length) := by
  rcases h with ⟨hb, rfl⟩ | rfl
  · refine ⟨Nat.le_refl _, fun hmem => ?_⟩
    rw [← List.mem_singleton.1 hmem] at hb
    exact absurd hb (by decide)
  · have hlength : (Percent.escape marker b).length = 3 := rfl
    omega

/-- However an octet is shown, it is read as one piece. -/
theorem Shown.pieces {t r : Text} {isMarker : CodePoint → Bool} (h : Shown b t)
    (hm : isMarker marker) (hu : ∀ c, isUnreserved c → isMarker c = false) :
    Percent.pieces isMarker (t ++ r) = .octet b :: Percent.pieces isMarker r := by
  rcases h with ⟨hb, rfl⟩ | rfl
  · have hpiece : Percent.Piece.ofChar isMarker (CodePoint.ofByte b) = .octet b := by
      rw [Percent.Piece.ofChar, hu _ hb, if_neg Bool.false_ne_true,
        if_pos (isAscii_of_isUnreserved hb)]
      exact congrArg Percent.Piece.octet UInt8.ofNat_toNat
    rw [List.singleton_append, Percent.pieces_cons (hu _ hb), hpiece]
  · exact Percent.pieces_escape hm

/-- A text that shows octets one after the other, each in one of its two ways. -/
inductive AllShown : Bytes → Text → Prop
  | nil : AllShown [] []
  | cons {b bytes t r} : Shown b t → AllShown bytes r → AllShown (b :: bytes) (t ++ r)

theorem allShown_octets (bytes : Bytes) : AllShown bytes (octets bytes) := by
  fun_induction octets bytes with
  | case1 => exact .nil
  | case2 b =>
    have h := AllShown.cons (shown_endOctet b) .nil
    rwa [List.append_nil] at h
  | case3 b r _ ih => exact .cons (shown_octet b) ih

theorem allShown_escaped (bytes : Bytes) : AllShown bytes (escaped bytes) := by
  unfold escaped
  split
  · exact .cons (shown_endOctet _) (allShown_octets _)
  · exact allShown_octets _

theorem AllShown.pieces {t : Text} (h : AllShown bytes t) (isMarker : CodePoint → Bool)
    (hm : isMarker marker) (hu : ∀ c, isUnreserved c → isMarker c = false) :
    Percent.pieces isMarker t = bytes.map .octet := by
  induction h with
  | nil => rfl
  | cons hb _ ih => rw [hb.pieces hm hu, ih, List.map_cons]

/-- Without the marker every octet stands for itself. -/
theorem AllShown.eq_of_not_mem {t : Text} (h : AllShown bytes t) (hmem : marker ∉ t) :
    t = bytes.map CodePoint.ofByte ∧ ∀ b ∈ bytes, isUnreserved (CodePoint.ofByte b) := by
  induction h with
  | nil => exact ⟨rfl, fun b hb => absurd hb List.not_mem_nil⟩
  | cons hb _ ih =>
    rw [List.mem_append, not_or] at hmem
    obtain ⟨hfirst, hrest⟩ := hmem
    obtain ⟨rfl, hunreserved⟩ := hb.eq_of_not_mem hfirst
    obtain ⟨rfl, hall⟩ := ih hrest
    refine ⟨rfl, fun d hd => ?_⟩
    rcases List.mem_cons.1 hd with rfl | hd
    · exact hunreserved
    · exact hall d hd

/-- A text that shows an octet by its escape is longer than there are octets. -/
theorem AllShown.length {t : Text} (h : AllShown bytes t) :
    bytes.length ≤ t.length ∧ (marker ∈ t → bytes.length < t.length) := by
  induction h with
  | nil => exact ⟨Nat.le_refl _, fun hmem => absurd hmem List.not_mem_nil⟩
  | cons hb _ ih =>
    obtain ⟨hone, hmore⟩ := hb.length
    obtain ⟨hle, hlt⟩ := ih
    rw [List.length_cons, List.length_append]
    refine ⟨by omega, fun hmem => ?_⟩
    rcases List.mem_append.1 hmem with hmem | hmem
    · have := hmore hmem
      omega
    · have := hlt hmem
      omega

/-! ## Periods at the ends -/

theorem isLegal_endOctet (b : UInt8) : StoreKey.IsLegal (endOctet b) := by
  have hescape : StoreKey.IsLegal (Percent.escape marker b) := by
    have hchars := Shown.isChar (b := b) (.inr rfl)
    obtain ⟨h, l, heq, -, -, hl⟩ := Percent.exists_escape marker b
    have hne : l ≠ dot := by
      intro heq
      subst heq
      revert hl
      decide
    rw [heq] at hchars ⊢
    refine ⟨List.cons_ne_nil _ _, Text.isDotBounded_eq_false_iff.2 ⟨?_, ?_⟩, hchars⟩
    · exact fun heq => absurd (Option.some.inj heq) (by decide)
    · exact fun heq => hne (Option.some.inj heq)
  unfold endOctet octet
  split
  · exact hescape
  · rename_i hne
    split
    · rename_i hb
      refine ⟨List.cons_ne_nil _ _, Text.isDotBounded_eq_false_iff.2 ⟨?_, ?_⟩, ?_⟩
      · exact fun heq => hne (Option.some.inj heq)
      · exact fun heq => hne (Option.some.inj heq)
      · exact Shown.isChar (.inl ⟨hb, rfl⟩)
    · exact hescape

/-! ## The whole key -/

theorem octets_concat (bytes : Bytes) (c : UInt8) :
    octets (bytes ++ [c]) = bytes.flatMap octet ++ endOctet c := by
  induction bytes with
  | nil => rfl
  | cons b bytes ih =>
    rw [List.cons_append, octets.eq_3 b (bytes ++ [c]) fun h => by simp at h, ih,
      List.flatMap_cons, List.append_assoc]

/-- A key of one octet has it at both ends; every other one begins and ends with an octet of its
own. -/
theorem escaped_cases (h : bytes ≠ []) : (∃ b, bytes = [b] ∧ escaped bytes = endOctet b) ∨
    ∃ b middle c, bytes = b :: (middle ++ [c]) ∧
      escaped bytes = endOctet b ++ (middle.flatMap octet ++ endOctet c) := by
  obtain ⟨b, rest, rfl⟩ := List.exists_cons_of_ne_nil h
  rcases List.eq_nil_or_concat rest with rfl | ⟨middle, c, rfl⟩
  · exact .inl ⟨b, rfl, rfl⟩
  · rw [List.concat_eq_append]
    refine .inr ⟨b, middle, c, rfl, ?_⟩
    rw [← octets_concat]
    obtain ⟨d, r, hd⟩ := List.exists_cons_of_ne_nil (List.append_ne_nil_of_right_ne_nil middle
      (List.cons_ne_nil c []))
    rw [hd]
    rfl

theorem isLegal_escaped (h : bytes ≠ []) : StoreKey.IsLegal (escaped bytes) := by
  rcases escaped_cases h with ⟨b, rfl, heq⟩ | ⟨b, middle, c, rfl, heq⟩
  · rw [heq]
    exact isLegal_endOctet b
  · rw [heq]
    refine (isLegal_endOctet b).between (isLegal_endOctet c) fun x hx => ?_
    obtain ⟨d, -, hd⟩ := List.mem_flatMap.1 hx
    exact (shown_octet d).isChar x hd

/-- An escaped key without the marker shows every octet as itself, and is a key that is left
alone. -/
theorem isPlain_of_not_mem (h : bytes ≠ []) (hmem : marker ∉ escaped bytes) :
    escaped bytes = bytes.map CodePoint.ofByte ∧ isPlain (bytes.map CodePoint.ofByte) := by
  have hlegal := isLegal_escaped h
  obtain ⟨heq, hu⟩ := (allShown_escaped bytes).eq_of_not_mem hmem
  refine ⟨heq, ?_⟩
  rw [heq] at hlegal
  have hall : (bytes.map CodePoint.ofByte).all
      (fun c => isUnreserved c || c == CodePoint.ofChar '/') := by
    rw [List.all_map, List.all_eq_true]
    intro b hb
    simp [hu b hb]
  simp [isPlain, hlegal.not_dotBounded, h, hall]

/-! ## Legal and read back -/

theorem octets_ne_nil (c : CodePoint) : c.octets ≠ [] := by
  unfold CodePoint.octets
  dsimp only
  repeat' split
  all_goals exact List.cons_ne_nil _ _

/-- The keys that are left alone, character by character. -/
theorem isPlain_iff : isPlain raw ↔ raw ≠ [] ∧ raw.isDotBounded = false ∧
    ∀ c ∈ raw, c.isAlphanumeric ∨ c ∈ ("-_./" : Text) := by
  have hchar : ∀ c : CodePoint, (isUnreserved c || c == CodePoint.ofChar '/') ↔
      c.isAlphanumeric ∨ c ∈ ("-_./" : Text) := by
    intro c
    have hlist : ("-_./" : Text) =
        [CodePoint.ofChar '-', CodePoint.ofChar '_', dot, CodePoint.ofChar '/'] := rfl
    simp [hlist, isUnreserved, or_assoc]
  simp only [isPlain, Bool.and_eq_true, Bool.not_eq_true', List.isEmpty_eq_false_iff,
    List.all_eq_true, hchar, and_assoc]

theorem isAscii_of_isPlain (h : isPlain raw) (hc : c ∈ raw) : c.isAscii := by
  simp only [isPlain, Bool.and_eq_true, List.all_eq_true] at h
  have hchar := h.2 c hc
  rw [Bool.or_eq_true] at hchar
  rcases hchar with hu | hslash
  · exact isAscii_of_isUnreserved hu
  · rw [eq_of_beq hslash]
    decide

theorem marker_not_mem (h : isPlain raw) : marker ∉ raw := by
  simp only [isPlain, Bool.and_eq_true, List.all_eq_true] at h
  intro hmem
  have := h.2 marker hmem
  revert this
  decide

/-- A key is left alone, or its octets in UTF-8 are written. -/
theorem encode_eq_ok_iff : encode raw = .ok key ↔ raw ≠ [] ∧ (isPlain raw ∧ key = raw ∨
    isPlain raw = false ∧ (∀ c ∈ raw, c.isSurrogate = false) ∧
      key = escaped (raw.flatMap CodePoint.octets)) := by
  unfold encode
  by_cases hnil : raw = []
  · simp [hnil]
  rw [if_neg (by simpa using hnil)]
  cases hplain : isPlain raw with
  | true =>
    refine ⟨fun h => ⟨hnil, .inl ⟨rfl, (Except.ok.inj h).symm⟩⟩, ?_⟩
    rintro ⟨-, ⟨-, rfl⟩ | ⟨h, -, -⟩⟩
    · rfl
    · cases h
  | false =>
    rw [if_neg Bool.false_ne_true]
    cases hbytes : raw.utf8? with
    | none =>
      refine ⟨fun h => (nomatch h), ?_⟩
      rintro ⟨-, ⟨h, -⟩ | ⟨-, hs, -⟩⟩
      · cases h
      · rw [Text.utf8?_eq hs] at hbytes
        cases hbytes
    | some bytes =>
      obtain ⟨hs, rfl⟩ := Text.utf8?_eq_some_iff.1 hbytes
      refine ⟨fun h => ⟨hnil, .inr ⟨rfl, hs, (Except.ok.inj h).symm⟩⟩, ?_⟩
      rintro ⟨-, ⟨h, -⟩ | ⟨-, -, rfl⟩⟩
      · cases h
      · rfl

theorem flatMap_octets_ne_nil (h : raw ≠ []) : raw.flatMap CodePoint.octets ≠ [] := by
  obtain ⟨c, r, rfl⟩ := List.exists_cons_of_ne_nil h
  rw [List.flatMap_cons]
  exact List.append_ne_nil_of_left_ne_nil (octets_ne_nil c) _

theorem isLegal_encode (h : encode raw = .ok key) : StoreKey.IsLegal key := by
  obtain ⟨hne, ⟨hplain, rfl⟩ | ⟨-, -, rfl⟩⟩ := encode_eq_ok_iff.1 h
  · simp only [isPlain, Bool.and_eq_true, List.all_eq_true, Bool.not_eq_true'] at hplain
    refine ⟨hne, hplain.1.2, fun c hc => ?_⟩
    have := hplain.2 c hc
    rw [Bool.or_eq_true] at this
    rcases this with hu | hslash
    · exact isChar_of_isUnreserved hu
    · rw [eq_of_beq hslash]
      decide
  · exact isLegal_escaped (flatMap_octets_ne_nil hne)

/-- An escaped key shows its marker, or else it would have been left alone. -/
theorem marker_mem_escaped (hne : raw ≠ []) (hplain : isPlain raw = false)
    (hs : ∀ c ∈ raw, c.isSurrogate = false) :
    marker ∈ escaped (raw.flatMap CodePoint.octets) := by
  refine Decidable.byContradiction fun hmem => ?_
  obtain ⟨-, halone⟩ := isPlain_of_not_mem (flatMap_octets_ne_nil hne) hmem
  generalize hbytes : raw.flatMap CodePoint.octets = bytes at halone
  have hascii : (bytes.map CodePoint.ofByte).all CodePoint.isAscii :=
    List.all_eq_true.2 fun c hc => isAscii_of_isPlain halone hc
  have hoctets : (bytes.map CodePoint.ofByte).map CodePoint.octet = bytes := by
    rw [List.map_map]
    exact (List.map_congr_left fun b _ => UInt8.ofNat_toNat).trans (List.map_id _)
  have hdecode := Text.decode?_of_isAscii hascii
  rw [hoctets, ← hbytes, Utf8.decode?_flatMap_octets hs, hbytes] at hdecode
  rw [Option.some.inj hdecode, halone] at hplain
  cases hplain

/-- **A percent key is read back.** -/
theorem decode_encode (h : encode raw = .ok key) : decode key = .ok raw := by
  have hlegal := isLegal_encode h
  obtain ⟨hne, ⟨hplain, rfl⟩ | ⟨hplain, hs, rfl⟩⟩ := encode_eq_ok_iff.1 h
  · rw [decode, if_neg (by simpa using hne), if_pos (marker_not_mem hplain)]
  · have hpieces := (allShown_escaped (raw.flatMap CodePoint.octets)).pieces
      (fun c => c = marker ∨ c = CodePoint.ofChar '%') (by simp) ?_
    · rw [decode, if_neg (by simpa using hlegal.ne_nil),
        if_neg (Decidable.not_not.2 (marker_mem_escaped hne hplain hs)), Percent.unescape?, hpieces,
        Percent.assemble?_map_octet, List.reverse_nil, List.nil_append,
        Utf8.decode?_flatMap_octets hs]
    · intro c hc
      apply decide_eq_false
      rintro (rfl | rfl)
      · exact absurd hc (by decide)
      · exact absurd hc (by decide)

/-! ## Keys left alone, and keys refused -/

theorem length_le_flatMap_octets (raw : Text) :
    raw.length ≤ (raw.flatMap CodePoint.octets).length := by
  induction raw with
  | nil => exact Nat.le_refl _
  | cons c raw ih =>
    have hpos := List.length_pos_iff.2 (octets_ne_nil c)
    rw [List.flatMap_cons, List.length_append, List.length_cons]
    omega

/-- A key is left alone, or else the marker shows that it was not. -/
theorem marker_mem_of_encode (h : encode raw = .ok key) :
    isPlain raw ∧ key = raw ∨ isPlain raw = false ∧ raw.length < key.length ∧ marker ∈ key := by
  obtain ⟨hne, halone | ⟨hplain, hs, rfl⟩⟩ := encode_eq_ok_iff.1 h
  · exact .inl halone
  · have hmem := marker_mem_escaped hne hplain hs
    have hlt := (allShown_escaped (raw.flatMap CodePoint.octets)).length.2 hmem
    exact .inr ⟨hplain, Nat.lt_of_le_of_lt (length_le_flatMap_octets raw) hlt, hmem⟩

theorem encode_eq_self_iff : encode raw = .ok raw ↔ isPlain raw := by
  constructor
  · intro h
    rcases marker_mem_of_encode h with ⟨hplain, -⟩ | ⟨-, hlt, -⟩
    · exact hplain
    · exact absurd hlt (Nat.lt_irrefl _)
  · intro h
    exact encode_eq_ok_iff.2 ⟨(isPlain_iff.1 h).1, .inl ⟨h, rfl⟩⟩

theorem exists_encode_iff :
    (∃ key, encode raw = .ok key) ↔ raw ≠ [] ∧ ∀ c ∈ raw, c.isSurrogate = false := by
  constructor
  · rintro ⟨key, h⟩
    obtain ⟨hne, ⟨hplain, -⟩ | ⟨-, hs, -⟩⟩ := encode_eq_ok_iff.1 h
    · exact ⟨hne, fun c hc => CodePoint.isSurrogate_of_isAscii (isAscii_of_isPlain hplain hc)⟩
    · exact ⟨hne, hs⟩
  · rintro ⟨hne, hs⟩
    cases hplain : isPlain raw with
    | true => exact ⟨raw, encode_eq_self_iff.2 hplain⟩
    | false => exact ⟨_, encode_eq_ok_iff.2 ⟨hne, .inr ⟨hplain, hs, rfl⟩⟩⟩

theorem encode_eq_error {e : InvalidKey} (h : encode raw = .error e) :
    e = ⟨raw, if raw = [] then .emptyKey else .notUtf8⟩ := by
  unfold encode at h
  split at h
  · rename_i hempty
    rw [if_pos (List.isEmpty_iff.1 hempty)]
    exact (Except.error.inj h).symm
  · rename_i hne
    rw [if_neg (mt List.isEmpty_iff.2 hne)]
    split at h
    · cases h
    · split at h
      · exact (Except.error.inj h).symm
      · cases h

theorem encode_eq_error_iff {e : InvalidKey} : encode raw = .error e ↔
    raw = [] ∧ e = ⟨raw, .emptyKey⟩ ∨ (∃ c ∈ raw, c.isSurrogate) ∧ e = ⟨raw, .notUtf8⟩ := by
  constructor
  · intro h
    have he := encode_eq_error h
    by_cases hnil : raw = []
    · rw [if_pos hnil] at he
      exact .inl ⟨hnil, he⟩
    · rw [if_neg hnil] at he
      refine .inr ⟨Decidable.byContradiction fun hnone => ?_, he⟩
      have hs : ∀ c ∈ raw, c.isSurrogate = false :=
        fun c hc => Bool.eq_false_iff.2 fun hsurrogate => hnone ⟨c, hc, hsurrogate⟩
      obtain ⟨key, hkey⟩ := exists_encode_iff.2 ⟨hnil, hs⟩
      rw [hkey] at h
      cases h
  · intro h
    cases hencode : encode raw with
    | ok key =>
      obtain ⟨hne, hs⟩ := exists_encode_iff.1 ⟨key, hencode⟩
      rcases h with ⟨hnil, -⟩ | ⟨⟨c, hc, hsurrogate⟩, -⟩
      · exact absurd hnil hne
      · rw [hs c hc] at hsurrogate
        cases hsurrogate
    | error e' =>
      rw [encode_eq_error hencode]
      rcases h with ⟨rfl, rfl⟩ | ⟨⟨c, hc, -⟩, rfl⟩
      · rfl
      · rw [if_neg (List.ne_nil_of_mem hc)]

end PercentKey

end SlidingCache
