import SlidingCache.Key.Punycode
import SlidingCache.Proofs.Chains
import SlidingCache.Proofs.Key.Rule
import SlidingCache.Proofs.Text.Punycode

/-!
# Punycode keys are legal and read back

Moving characters out of ASCII is undone (`PunycodeKey.unshift_shift`), so every segment is read
back (`PunycodeKey.decodeSegment_encodeSegment`). A bare tag is the form of an empty segment only,
and of the segments of a middle part neither the first nor the last of several is empty unless a
period stands at that end. So the tags that stand for periods are told apart
(`PunycodeKey.stripEnds_segments`).
-/

namespace SlidingCache

/-! ## Cutting -/

namespace Text

variable {sep c : CodePoint} {t p : Text}

theorem pieces_of_not_mem (h : sep ∉ p) : pieces sep p = [p] := by
  induction p with
  | nil => rfl
  | cons c p ih =>
    obtain ⟨hc, hp⟩ := not_or.1 (mt List.mem_cons.2 h)
    rw [pieces, if_neg (Ne.symm hc), ih hp]

theorem pieces_append (h : sep ∉ p) : pieces sep (p ++ sep :: t) = p :: pieces sep t := by
  induction p with
  | nil => exact if_pos rfl
  | cons c p ih =>
    obtain ⟨hc, hp⟩ := not_or.1 (mt List.mem_cons.2 h)
    rw [List.cons_append, pieces, if_neg (Ne.symm hc), ih hp]

/-- Pieces that are joined are found again. -/
theorem pieces_join {l : List Text} (hne : l ≠ []) (h : ∀ p ∈ l, sep ∉ p) :
    pieces sep (join [sep] l) = l := by
  induction l with
  | nil => exact absurd rfl hne
  | cons p l ih =>
    have hp := h p List.mem_cons_self
    by_cases hl : l = []
    · subst hl
      exact pieces_of_not_mem hp
    · rw [join_cons_of_ne_nil _ _ hl, List.append_assoc, List.singleton_append, pieces_append hp,
        ih hl fun q hq => h q (List.mem_cons_of_mem _ hq)]

/-- The first piece is empty only where a separator stands first. -/
theorem head?_pieces (hne : t ≠ []) (h : t.head? ≠ some sep) :
    (pieces sep t).head? ≠ some [] := by
  obtain ⟨c, r, rfl⟩ := List.exists_cons_of_ne_nil hne
  have hc : c ≠ sep := fun heq => h (congrArg some heq)
  rw [pieces, if_neg hc]
  split
  · exact fun heq => List.cons_ne_nil _ _ (Option.some.inj heq)
  · exact fun heq => List.cons_ne_nil _ _ (Option.some.inj heq)

/-- The last piece is empty only where a separator stands last. -/
theorem getLast?_pieces (hne : t ≠ []) (h : t.getLast? ≠ some sep) :
    (pieces sep t).getLast? ≠ some [] := by
  induction t with
  | nil => exact absurd rfl hne
  | cons c r ih =>
    by_cases hr : r = []
    · subst hr
      have hc : c ≠ sep := fun heq => h (congrArg some heq)
      rw [pieces_of_not_mem (by simpa using Ne.symm hc)]
      exact fun heq => List.cons_ne_nil _ _ (Option.some.inj heq)
    · rw [List.getLast?_cons_of_ne_nil hr] at h
      have ih := ih hr h
      rw [pieces]
      split
      · rwa [List.getLast?_cons_of_ne_nil (pieces_ne_nil sep r)]
      · split
        · rename_i hnil
          exact absurd hnil (pieces_ne_nil sep r)
        · rename_i p ps heq
          rw [heq] at ih
          by_cases hps : ps = []
          · subst hps
            exact fun heq => List.cons_ne_nil _ _ (Option.some.inj heq)
          · rwa [List.getLast?_cons_of_ne_nil hps] at ih ⊢

end Text

namespace PunycodeKey

variable {c : CodePoint} {t r segment raw key : Text}

/-! ## The move out of ASCII -/

theorem unshift_cons (h : c ≠ literalMark) : unshift (c :: r) = unshiftChar c :: unshift r := by
  cases r with
  | nil => exact if_neg h
  | cons d r => exact if_neg h

theorem isShifted_iff : isShifted c ↔ 0x2800 ≤ c.val ∧ c.val < 0x2880 := by
  rw [isShifted, Bool.and_eq_true, decide_eq_true_eq, decide_eq_true_eq]
  rfl

/-- What becomes of a character: it is marked, moved, or stays. -/
inductive Shifted (c : CodePoint) : Text → Prop
  | marked : isShifted c ∨ c = literalMark → Shifted c [literalMark, c]
  | moved {d : CodePoint} : c.isAscii → d.val = shiftBase + c.val → Shifted c [d]
  | kept : isShifted c = false → c ≠ literalMark → (c.isAscii → StoreKey.isSegmentChar c) →
    Shifted c [c]

theorem shifted_shiftChar (c : CodePoint) : Shifted c (shiftChar c) := by
  unfold shiftChar
  split
  · rename_i h
    refine .marked ?_
    simpa using h
  · rename_i h
    simp only [Bool.or_eq_true, not_or, Bool.not_eq_true, beq_iff_eq] at h
    split
    · rename_i hmove
      exact .moved hmove.1 rfl
    · rename_i hstay
      refine .kept h.1 h.2 fun hascii => ?_
      simpa [hascii] using hstay

theorem unshift_shiftChar (c : CodePoint) (r : Text) :
    unshift (shiftChar c ++ r) = c :: unshift r := by
  have h := shifted_shiftChar c
  generalize shiftChar c = t at h
  cases h with
  | marked => exact if_pos rfl
  | @moved d hascii hd =>
    have hlt : c.val < 0x80 := by simpa [CodePoint.isAscii] using hascii
    simp only [shiftBase] at hd
    have hne : d ≠ literalMark := by
      intro heq
      subst heq
      simp only [literalMark] at hd
      omega
    have hshifted : isShifted d := isShifted_iff.2 (by omega)
    have hback : unshiftChar d = c := by
      rw [unshiftChar, if_pos hshifted]
      ext
      show d.val - shiftBase = c.val
      simp only [shiftBase]
      omega
    rw [List.singleton_append, unshift_cons hne, hback]
  | kept hshifted hne =>
    rw [List.singleton_append, unshift_cons hne, unshiftChar, hshifted]
    rfl

theorem unshift_shift (t : Text) : unshift (shift t) = t := by
  induction t with
  | nil => rfl
  | cons c t ih =>
    rw [shift, List.flatMap_cons, unshift_shiftChar]
    exact congrArg (c :: ·) ih

/-- Of ASCII only what a segment of a store key may hold stays in place. -/
theorem isSegmentChar_of_mem_shift (h : c ∈ shift t) (hascii : c.isAscii) :
    StoreKey.isSegmentChar c := by
  obtain ⟨d, -, hd⟩ := List.mem_flatMap.1 h
  have hlt : c.val < 0x80 := by simpa [CodePoint.isAscii] using hascii
  have hmark : c ≠ literalMark := by
    intro heq
    subst heq
    revert hlt
    decide
  have hshifted := shifted_shiftChar d
  generalize shiftChar d = t at hd hshifted
  cases hshifted with
  | marked hd' =>
    rcases List.mem_cons.1 hd with rfl | hd
    · exact absurd rfl hmark
    · obtain rfl := List.mem_singleton.1 hd
      rcases hd' with hd' | rfl
      · have := isShifted_iff.1 hd'
        omega
      · exact absurd rfl hmark
  | moved _ hval =>
    obtain rfl := List.mem_singleton.1 hd
    simp only [shiftBase] at hval
    omega
  | kept _ _ hsegment =>
    obtain rfl := List.mem_singleton.1 hd
    exact hsegment hascii

theorem shift_eq_nil_iff : shift t = [] ↔ t = [] := by
  refine ⟨fun h => ?_, fun h => by rw [h]; rfl⟩
  rw [← unshift_shift t, h]
  rfl

/-- What a segment of a store key may hold stays as it is. -/
theorem shift_of_isSegmentChar (h : ∀ c ∈ t, StoreKey.isSegmentChar c) : shift t = t := by
  have hchar : ∀ c, StoreKey.isSegmentChar c → shiftChar c = [c] := by
    intro c hc
    have hlt : c.val < 0x80 := by
      simpa [CodePoint.isAscii] using StoreKey.isAscii_of_isSegmentChar hc
    have hfree : ¬ (isShifted c || c == literalMark) := by
      rw [Bool.or_eq_true, isShifted_iff, beq_iff_eq]
      rintro (hshifted | rfl)
      · omega
      · exact absurd hlt (by decide)
    rw [shiftChar, if_neg hfree, dif_neg (by simp [hc])]
  induction t with
  | nil => rfl
  | cons c t ih =>
    rw [shift, List.flatMap_cons, hchar c (h c List.mem_cons_self)]
    exact congrArg (c :: ·) (ih fun d hd => h d (List.mem_cons_of_mem _ hd))

/-! ## Segments -/

theorem isSegmentChar_of_isAlphanumeric (h : c.isAlphanumeric) : StoreKey.isSegmentChar c := by
  simp [StoreKey.isSegmentChar, h]

/-- Every segment is written with characters of a store key's segments, be it plain or not. -/
theorem isSegmentChar_of_mem_encodeSegment (h : c ∈ encodeSegment segment) :
    StoreKey.isSegmentChar c := by
  have htag : ∀ d ∈ tag, StoreKey.isSegmentChar d := by decide
  unfold encodeSegment at h
  split at h
  · rename_i hplain
    simp only [isPlainSegment, Bool.and_eq_true, List.all_eq_true] at hplain
    exact hplain.1.2 c h
  · rcases List.mem_append.1 h with h | h
    · exact htag c h
    · rcases Punycode.mem_encode h with ⟨h, hascii⟩ | rfl | h
      · exact isSegmentChar_of_mem_shift h hascii
      · decide
      · exact isSegmentChar_of_isAlphanumeric h

theorem encodeSegment_ne_nil : encodeSegment segment ≠ [] := by
  unfold encodeSegment
  split
  · rename_i hplain
    simp only [isPlainSegment, Bool.and_eq_true] at hplain
    simpa using hplain.1.1
  · exact List.cons_ne_nil _ _

theorem isLegal_encodeSegment : StoreKey.IsLegal (encodeSegment segment) :=
  StoreKey.isLegal_segment encodeSegment_ne_nil fun _ hc => isSegmentChar_of_mem_encodeSegment hc

theorem dot_not_mem_encodeSegment : dot ∉ encodeSegment segment := by
  intro h
  have := isSegmentChar_of_mem_encodeSegment h
  rw [StoreKey.isSegmentChar_dot] at this
  cases this

/-- Only the empty segment is written as a bare tag. -/
theorem encodeSegment_ne_tag (h : segment ≠ []) : encodeSegment segment ≠ tag := by
  unfold encodeSegment
  split
  · rename_i hplain
    intro heq
    subst heq
    revert hplain
    decide
  · intro heq
    have hnil : Punycode.encode (shift segment) = [] :=
      List.append_cancel_left (heq.trans (List.append_nil tag).symm)
    have hdecode := Punycode.decode?_encode (shift segment)
    rw [hnil] at hdecode
    exact h (shift_eq_nil_iff.1 (Option.some.inj hdecode).symm)

theorem startsWith_tag_append : Text.startsWith (tag ++ r) tag :=
  List.isPrefixOf_iff_prefix.2 (List.prefix_append tag r)

/-- A plain segment stays and is not tagged, every other one is tagged. -/
theorem startsWith_encodeSegment :
    (encodeSegment segment).startsWith tag = !isPlainSegment segment := by
  unfold encodeSegment
  split
  · rename_i hplain
    rw [hplain]
    simp only [isPlainSegment, Bool.and_eq_true, Bool.not_eq_true'] at hplain
    exact hplain.2
  · rename_i hplain
    rw [startsWith_tag_append, Bool.eq_false_iff.2 hplain]
    rfl

/-- A segment that is not plain never stays: if no character of it moves it is tagged once more. -/
theorem encodeSegment_eq_self_iff : encodeSegment segment = segment ↔ isPlainSegment segment := by
  refine ⟨fun h => ?_, fun h => if_pos h⟩
  have hchars : ∀ c ∈ segment, StoreKey.isSegmentChar c :=
    fun c hc => isSegmentChar_of_mem_encodeSegment (h.symm ▸ hc)
  have hascii : segment.all CodePoint.isAscii :=
    List.all_eq_true.2 fun c hc => StoreKey.isAscii_of_isSegmentChar (hchars c hc)
  have hne : segment ≠ [] := h ▸ encodeSegment_ne_nil
  refine Decidable.byContradiction fun hplain => ?_
  rw [encodeSegment, if_neg hplain, shift_of_isSegmentChar hchars,
    Punycode.encode_of_isAscii hne hascii] at h
  have hlength := congrArg List.length h
  simp only [List.length_append, List.length_cons, List.length_nil] at hlength
  omega

/-- A segment is read back, whatever it holds. -/
theorem decodeSegment_encodeSegment : decodeSegment key (encodeSegment segment) = .ok segment := by
  unfold encodeSegment
  split
  · rename_i hplain
    simp only [isPlainSegment, Bool.and_eq_true, Bool.not_eq_true'] at hplain
    rw [decodeSegment, hplain.2, if_neg Bool.false_ne_true]
  · rw [decodeSegment, startsWith_tag_append, if_pos rfl, List.drop_left, Punycode.decode?_encode]
    exact congrArg Except.ok (unshift_shift segment)

/-! ## Ends -/

/-- The segments of a key: those of the middle part, and a bare tag for a period at an end. -/
def segments (lead trail : Bool) (middle : List Text) : List Text :=
  (if lead then [tag] else []) ++ middle ++ if trail then [tag] else []

/-- The tags at the ends are told from the segments of the middle part, unless one of these is a
bare tag at an end where no period stands. -/
theorem stripEnds_segments {lead trail : Bool} {middle : List Text} (hne : middle ≠ [])
    (hlead : lead = false → middle.head? ≠ some tag)
    (htrail : trail = false → 1 < middle.length → middle.getLast? ≠ some tag) :
    stripEnds (segments lead trail middle) = (lead, middle, trail) := by
  have hlength : 0 < middle.length := List.length_pos_iff.2 hne
  generalize hrest : middle ++ (if trail then [tag] else []) = rest
  have hend : (decide (1 < rest.length) && rest.getLast? == some tag) = trail ∧
      (if trail then rest.dropLast else rest) = middle := by
    subst rest
    cases trail with
    | true => simp [hlength]
    | false =>
      rw [if_neg Bool.false_ne_true, List.append_nil, if_neg Bool.false_ne_true]
      refine ⟨?_, rfl⟩
      rw [Bool.and_eq_false_iff, decide_eq_false_iff_not, beq_eq_false_iff_ne]
      by_cases hlong : 1 < middle.length
      · exact .inr (htrail rfl hlong)
      · exact .inl hlong
  cases lead with
  | true =>
    have hall : segments true trail middle = tag :: rest := by
      rw [← hrest]
      rfl
    have hlong : 1 < (tag :: rest).length := by
      rw [List.length_cons, ← hrest, List.length_append]
      omega
    have hfirst : (decide (1 < (tag :: rest).length) && (tag :: rest).head? == some tag) =
        true := by
      rw [decide_eq_true hlong, List.head?_cons, beq_self_eq_true]
      rfl
    simp only [stripEnds, hall, hfirst, if_true, List.drop_succ_cons, List.drop_zero, hend.1,
      hend.2]
  | false =>
    have hall : segments false trail middle = rest := hrest
    have hhead : rest.head? ≠ some tag := by
      obtain ⟨first, others, rfl⟩ := List.exists_cons_of_ne_nil hne
      rw [← hrest]
      exact hlead rfl
    rw [stripEnds, hall]
    simp [hhead, hend]

/-- A key that is not empty, taken apart: what is left in the middle, and that no period stands at
an end of it where none was taken. -/
theorem splitEnds_spec {lead trail : Bool} {middle : Text} (hne : raw ≠ [])
    (h : splitEnds raw = (lead, middle, trail)) :
    (if lead then [dot] else []) ++ (middle ++ if trail then [dot] else []) = raw ∧
      (lead = false → middle ≠ [] ∧ middle.head? ≠ some dot) ∧
        (trail = false → middle.getLast? ≠ some dot) := by
  have hend : ∀ (rest : Text) (trail : Bool), (rest.getLast? == some dot) = trail →
      (if trail then rest.dropLast else rest) ++ (if trail then [dot] else []) = rest := by
    rintro rest _ rfl
    split
    · rename_i hlast
      obtain ⟨init, rfl⟩ := List.getLast?_eq_some_iff.1 (eq_of_beq hlast)
      rw [List.dropLast_concat]
    · exact List.append_nil rest
  simp only [splitEnds, Prod.mk.injEq] at h
  obtain ⟨hlead, hmiddle, htrail⟩ := h
  cases lead with
  | true =>
    obtain ⟨r, rfl⟩ : ∃ r, raw = dot :: r := by
      obtain ⟨c, r, rfl⟩ := List.exists_cons_of_ne_nil hne
      exact ⟨r, by rw [Option.some.inj (eq_of_beq hlead)]⟩
    simp only [hlead, if_true, List.drop_succ_cons, List.drop_zero] at hmiddle htrail
    rw [htrail] at hmiddle
    subst hmiddle
    refine ⟨?_, fun h => (nomatch h), ?_⟩
    · rw [hend r trail htrail]
      rfl
    · intro heq
      subst heq
      simpa using htrail
  | false =>
    have hhead : raw.head? ≠ some dot := by simpa using hlead
    simp only [hlead, Bool.false_eq_true, if_false] at hmiddle htrail
    rw [htrail] at hmiddle
    subst hmiddle
    refine ⟨hend raw trail htrail, fun _ => ?_, ?_⟩
    · cases trail with
      | true =>
        obtain ⟨init, rfl⟩ := List.getLast?_eq_some_iff.1 (eq_of_beq htrail)
        rw [if_pos rfl, List.dropLast_concat]
        cases init with
        | nil => exact absurd rfl hhead
        | cons c init => exact ⟨List.cons_ne_nil _ _, hhead⟩
      | false => exact ⟨hne, hhead⟩
    · intro heq
      subst heq
      simpa using htrail

/-! ## Keys -/

/-- What a key is written as: itself, or the segments of its middle part with the tags for the
periods at its ends. -/
theorem encode_eq_ok_iff : encode raw = .ok key ↔ raw ≠ [] ∧ (isPlain raw ∧ key = raw ∨
    isPlain raw = false ∧ ∃ lead middle trail, splitEnds raw = (lead, middle, trail) ∧
      key = Text.join [dot] (segments lead trail ((middle.pieces dot).map encodeSegment))) := by
  unfold encode
  by_cases hnil : raw = []
  · simp [hnil]
  rw [if_neg (by simpa using hnil)]
  cases hplain : isPlain raw with
  | true =>
    refine ⟨fun h => ⟨hnil, .inl ⟨rfl, (Except.ok.inj h).symm⟩⟩, ?_⟩
    rintro ⟨-, ⟨-, rfl⟩ | ⟨h, -⟩⟩
    · rfl
    · cases h
  | false =>
    refine ⟨fun h => ⟨hnil, .inr ⟨rfl, _, _, _, rfl, (Except.ok.inj h).symm⟩⟩, ?_⟩
    rintro ⟨-, ⟨h, -⟩ | ⟨-, lead, middle, trail, hends, rfl⟩⟩
    · cases h
    · rw [if_neg Bool.false_ne_true, hends]
      rfl

theorem segments_ne_nil {lead trail : Bool} {middle : List Text} (h : middle ≠ []) :
    segments lead trail middle ≠ [] := by simp [segments, h]

theorem mem_segments {lead trail : Bool} {middle : List Text} {s : Text}
    (h : s ∈ segments lead trail middle) : s = tag ∨ s ∈ middle := by
  simp only [segments, List.mem_append] at h
  rcases h with (h | h) | h
  · split at h
    · exact .inl (List.mem_singleton.1 h)
    · exact absurd h List.not_mem_nil
  · exact .inr h
  · split at h
    · exact .inl (List.mem_singleton.1 h)
    · exact absurd h List.not_mem_nil

/-- Every segment of a written key is legal. -/
theorem isLegal_of_mem_segments {lead trail : Bool} {pieces : List Text} {s : Text}
    (h : s ∈ segments lead trail (pieces.map encodeSegment)) :
    StoreKey.IsLegal s ∧ dot ∉ s := by
  rcases mem_segments h with rfl | h
  · exact ⟨by decide, by decide⟩
  · obtain ⟨segment, -, rfl⟩ := List.mem_map.1 h
    exact ⟨isLegal_encodeSegment, dot_not_mem_encodeSegment⟩

theorem isLegal_encode (h : encode raw = .ok key) : StoreKey.IsLegal key := by
  obtain ⟨-, ⟨hplain, rfl⟩ | ⟨-, lead, middle, trail, -, rfl⟩⟩ := encode_eq_ok_iff.1 h
  · simp only [isPlain, Bool.and_eq_true, beq_iff_eq] at hplain
    exact StoreKey.fault?_eq_none_iff.1 hplain.1
  · refine StoreKey.isLegal_join (segments_ne_nil ?_) fun s hs => (isLegal_of_mem_segments hs).1
    simp [Text.pieces_ne_nil]

/-- What is read from a key whose segments are told apart. -/
theorem decode_eq_ok {lead trail : Bool} {middle pieces : List Text} (hne : key ≠ [])
    (hstrip : stripEnds (key.pieces dot) = (lead, middle, trail))
    (hpieces : middle.mapM (decodeSegment key) = .ok pieces) :
    decode key = .ok ((if lead then [dot] else []) ++ Text.join [dot] pieces
      ++ if trail then [dot] else []) := by
  rw [decode, if_neg (by simpa using hne), hstrip]
  simp only [hpieces]
  rfl

/-- No segment of a plain key is tagged, so nothing is told apart in it. -/
theorem decode_of_isPlain (hne : key ≠ []) (hplain : isPlain key) : decode key = .ok key := by
  simp only [isPlain, Bool.and_eq_true, List.all_eq_true, Bool.not_eq_true'] at hplain
  have hnot : ∀ s ∈ key.pieces dot, s ≠ tag := by
    intro s hs heq
    have htag := hplain.2 s hs
    rw [heq] at htag
    revert htag
    decide
  have hstrip : stripEnds (segments false false (key.pieces dot)) =
      (false, key.pieces dot, false) := by
    refine stripEnds_segments (Text.pieces_ne_nil dot key) (fun _ h => ?_) fun _ _ h => ?_
    · exact hnot _ (List.mem_of_head? h) rfl
    · exact hnot _ (List.mem_of_getLast? h) rfl
  have hsegments : segments false false (key.pieces dot) = key.pieces dot := List.append_nil _
  have hread : (key.pieces dot).mapM (decodeSegment key) = .ok (key.pieces dot) := by
    have hsame := Chain.mapM_map_eq_ok (g := id) (f := decodeSegment key) (l := key.pieces dot)
      fun s hs => by rw [decodeSegment, id, hplain.2 s hs, if_neg Bool.false_ne_true]
    rwa [List.map_id] at hsame
  rw [hsegments] at hstrip
  rw [decode_eq_ok hne hstrip hread, Text.join_pieces]
  exact congrArg Except.ok (List.append_nil key)

/-- A key is cut into the segments that it is made of. -/
theorem pieces_join_segments {lead trail : Bool} {pieces : List Text} (hne : pieces ≠ []) :
    (Text.join [dot] (segments lead trail (pieces.map encodeSegment))).pieces dot =
      segments lead trail (pieces.map encodeSegment) := by
  refine Text.pieces_join (segments_ne_nil ?_) fun s hs => (isLegal_of_mem_segments hs).2
  simpa using hne

/-- The segments that a key is made of are those that it is cut into, the tags told apart. -/
theorem decode_join_segments {lead trail : Bool} {middle : Text} (hne : raw ≠ [])
    (hends : splitEnds raw = (lead, middle, trail)) (hkey : key ≠ [])
    (hjoin : key = Text.join [dot] (segments lead trail ((middle.pieces dot).map encodeSegment))) :
    decode key = .ok raw := by
  obtain ⟨hraw, hlead, htrail⟩ := splitEnds_spec hne hends
  have hstrip : stripEnds (key.pieces dot) =
      (lead, (middle.pieces dot).map encodeSegment, trail) := by
    rw [hjoin, pieces_join_segments (Text.pieces_ne_nil dot middle)]
    refine stripEnds_segments (by simp [Text.pieces_ne_nil]) (fun h => ?_) fun h hlong => ?_
    · rw [List.head?_map]
      intro heq
      obtain ⟨s, hs, htag⟩ := Option.map_eq_some_iff.1 heq
      refine encodeSegment_ne_tag ?_ htag
      intro heq
      subst heq
      exact Text.head?_pieces (hlead h).1 (hlead h).2 hs
    · rw [List.getLast?_map]
      intro heq
      obtain ⟨s, hs, htag⟩ := Option.map_eq_some_iff.1 heq
      refine encodeSegment_ne_tag ?_ htag
      intro heq
      subst heq
      refine Text.getLast?_pieces ?_ (htrail h) hs
      intro heq
      subst heq
      rw [List.length_map] at hlong
      exact absurd hlong (by decide)
  have hread : ((middle.pieces dot).map encodeSegment).mapM (decodeSegment key) =
      .ok (middle.pieces dot) := Chain.mapM_map_eq_ok fun _ _ => decodeSegment_encodeSegment
  rw [decode_eq_ok hkey hstrip hread, Text.join_pieces, List.append_assoc, hraw]

/-- **A punycode key is read back.** -/
theorem decode_encode (h : encode raw = .ok key) : decode key = .ok raw := by
  have hkey := (isLegal_encode h).ne_nil
  obtain ⟨hne, ⟨hplain, rfl⟩ | ⟨-, lead, middle, trail, hends, hjoin⟩⟩ := encode_eq_ok_iff.1 h
  · exact decode_of_isPlain hkey hplain
  · exact decode_join_segments hne hends hkey hjoin

/-! ## Keys left alone, and tagged keys -/

theorem isPlain_iff : isPlain raw ↔
    StoreKey.IsLegal raw ∧ ∀ s ∈ raw.pieces dot, s.startsWith tag = false := by
  simp only [isPlain, Bool.and_eq_true, beq_iff_eq, List.all_eq_true, Bool.not_eq_true',
    StoreKey.fault?_eq_none_iff]

/-- The converse fails for a key with two periods in a row. -/
theorem isPlain_of_pieces (h : ∀ s ∈ raw.pieces dot, isPlainSegment s) : isPlain raw := by
  simp only [isPlainSegment, Bool.and_eq_true, Bool.not_eq_true', List.isEmpty_eq_false_iff,
    List.all_eq_true] at h
  refine isPlain_iff.2 ⟨?_, fun s hs => (h s hs).2⟩
  have hjoin := StoreKey.isLegal_join (Text.pieces_ne_nil dot raw) fun s hs =>
    StoreKey.isLegal_segment (h s hs).1.1 (h s hs).1.2
  rwa [Text.join_pieces] at hjoin

/-- A key that is taken apart gets a tag: for a period at an end, or for a segment that is not
plain. -/
theorem exists_tagged {lead trail : Bool} {middle : Text} (hne : raw ≠ [])
    (hplain : isPlain raw = false) (hends : splitEnds raw = (lead, middle, trail)) :
    ∃ s ∈ segments lead trail ((middle.pieces dot).map encodeSegment), s.startsWith tag := by
  refine Decidable.byContradiction fun hnone => ?_
  have huntagged : ∀ s ∈ segments lead trail ((middle.pieces dot).map encodeSegment),
      s.startsWith tag = false := fun s hs => Bool.eq_false_iff.2 fun h => hnone ⟨s, hs, h⟩
  have hlead : lead = false := by
    cases lead with
    | false => rfl
    | true => exact absurd (huntagged tag (by simp [segments])) (by decide)
  have htrail : trail = false := by
    cases trail with
    | false => rfl
    | true => exact absurd (huntagged tag (by simp [segments])) (by decide)
  subst hlead htrail
  obtain ⟨hraw, -, -⟩ := splitEnds_spec hne hends
  have hmiddle : middle = raw := by simpa using hraw
  subst hmiddle
  have hpieces : ∀ s ∈ middle.pieces dot, isPlainSegment s := by
    intro s hs
    have htag := huntagged (encodeSegment s) (by simpa [segments] using ⟨s, hs, rfl⟩)
    simpa [startsWith_encodeSegment] using htag
  rw [isPlain_of_pieces hpieces] at hplain
  cases hplain

/-- A key is left alone, or else a tag shows that it was not. -/
theorem tagged_of_encode (h : encode raw = .ok key) :
    isPlain raw ∧ key = raw ∨ isPlain raw = false ∧ ∃ s ∈ key.pieces dot, s.startsWith tag := by
  obtain ⟨hne, halone | ⟨hplain, lead, middle, trail, hends, rfl⟩⟩ := encode_eq_ok_iff.1 h
  · exact .inl halone
  · rw [pieces_join_segments (Text.pieces_ne_nil dot middle)]
    exact .inr ⟨hplain, exists_tagged hne hplain hends⟩

theorem splitEnds_of_isLegal (h : StoreKey.IsLegal raw) : splitEnds raw = (false, raw, false) := by
  obtain ⟨hhead, hlast⟩ := Text.isDotBounded_eq_false_iff.1 h.not_dotBounded
  simp [splitEnds, hhead, hlast]

/-- A legal key that is taken apart is not put together as before: its tagged segments get one tag
more. -/
theorem encode_eq_self_iff : encode raw = .ok raw ↔ isPlain raw := by
  constructor
  · intro h
    obtain ⟨-, ⟨hplain, -⟩ | ⟨hplain, lead, middle, trail, hends, hjoin⟩⟩ := encode_eq_ok_iff.1 h
    · exact hplain
    rw [splitEnds_of_isLegal (isLegal_encode h)] at hends
    cases hends
    have hsame := @pieces_join_segments false false _ (Text.pieces_ne_nil dot raw)
    rw [← hjoin, segments, if_neg Bool.false_ne_true, List.append_nil, List.nil_append] at hsame
    refine isPlain_of_pieces fun s hs => encodeSegment_eq_self_iff.1 ?_
    have hmap : (raw.pieces dot).map encodeSegment = (raw.pieces dot).map id := by
      rw [← hsame, List.map_id]
    exact List.map_inj_left.1 hmap s hs
  · intro h
    exact encode_eq_ok_iff.2 ⟨(isPlain_iff.1 h).1.ne_nil, .inl ⟨h, rfl⟩⟩

theorem exists_encode_iff : (∃ key, encode raw = .ok key) ↔ raw ≠ [] := by
  constructor
  · rintro ⟨key, h⟩
    exact (encode_eq_ok_iff.1 h).1
  · intro hne
    cases hplain : isPlain raw with
    | true => exact ⟨raw, encode_eq_self_iff.2 hplain⟩
    | false => exact ⟨_, encode_eq_ok_iff.2 ⟨hne, .inr ⟨hplain, _, _, _, rfl, rfl⟩⟩⟩

theorem encode_eq_error_iff {e : InvalidKey} :
    encode raw = .error e ↔ raw = [] ∧ e = ⟨raw, .emptyKey⟩ := by
  unfold encode
  split
  · rename_i hempty
    simp [List.isEmpty_iff.1 hempty, eq_comm]
  · rename_i hne
    have hne : raw ≠ [] := mt List.isEmpty_iff.2 hne
    split
    · simp [hne]
    · simp [hne]

end PunycodeKey

end SlidingCache
