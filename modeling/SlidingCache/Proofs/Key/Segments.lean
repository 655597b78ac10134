import SlidingCache.Proofs.Key.Encoding

/-!
# Which segments of a key are written anew

A period at an end of a key becomes a bare tag, and all between is written segment by segment, in
order (`KeyEncoding.punycode_segmentwise`). One function writes the segments, wherever they stand
and whatever stands beside them, and it leaves every segment that may stay
(`PunycodeKey.segmentwise_encodeSegment`).
-/

namespace SlidingCache

namespace PunycodeKey

variable {raw middle segment : Text} {lead trail : Bool}

/-! ## Segments -/

/-- A segment that the store accepts as a key and that no one takes for an encoded one. -/
structure MayStay (segment : Text) : Prop where
  ne_nil : segment ≠ []
  isChar : ∀ c ∈ segment, c.isAlphanumeric ∨ c ∈ ("-_=/" : Text)
  untagged : segment.startsWith "xn--" = false

theorem mayStay_iff : MayStay segment ↔ isPlainSegment segment := by
  have hlist : ("-_=/" : Text) = [CodePoint.ofChar '-', CodePoint.ofChar '_', CodePoint.ofChar '=',
    CodePoint.ofChar '/'] := rfl
  have hchar : ∀ c, StoreKey.isSegmentChar c ↔ c.isAlphanumeric ∨ c ∈ ("-_=/" : Text) := by
    intro c
    simp only [StoreKey.isSegmentChar, hlist, Bool.or_eq_true, beq_iff_eq, List.mem_cons,
      List.not_mem_nil, or_false]
    grind
  simp only [isPlainSegment, Bool.and_eq_true, Bool.not_eq_true', List.isEmpty_eq_false_iff,
    List.all_eq_true, hchar]
  exact ⟨fun h => ⟨⟨h.ne_nil, h.isChar⟩, h.untagged⟩, fun h => ⟨h.1.1, h.1.2, h.2⟩⟩

/-- A way to write segments that changes only those that cannot stay. What it writes is a segment,
so nothing that it writes is cut, and no two segments are written the same. -/
structure Segmentwise (write : Text → Text) : Prop where
  stays : ∀ segment, MayStay segment → write segment = segment
  tagged : ∀ segment, ¬MayStay segment → (write segment).startsWith "xn--"
  isSegmentChar : ∀ segment, ∀ c ∈ write segment, StoreKey.isSegmentChar c
  dot_not_mem : ∀ segment, dot ∉ write segment
  injective : ∀ segment segment', write segment = write segment' → segment = segment'

theorem encodeSegment_injective {segment' : Text}
    (h : encodeSegment segment = encodeSegment segment') : segment = segment' := by
  have hread : decodeSegment [] (encodeSegment segment) = .ok segment :=
    decodeSegment_encodeSegment
  rw [h, decodeSegment_encodeSegment] at hread
  exact (Except.ok.inj hread).symm

theorem segmentwise_encodeSegment : Segmentwise encodeSegment where
  stays _ h := encodeSegment_eq_self_iff.2 (mayStay_iff.1 h)
  tagged _ h := by
    rw [mayStay_iff, Bool.not_eq_true] at h
    show Text.startsWith _ tag = true
    rw [startsWith_encodeSegment, h]
    rfl
  isSegmentChar _ _ := isSegmentChar_of_mem_encodeSegment
  dot_not_mem _ := dot_not_mem_encodeSegment
  injective _ _ := encodeSegment_injective

/-! ## Ends -/

/-- A key as a period at the start, a middle part and a period at the end. A period is taken off
wherever one stands, first at the start, so a lone period leaves nothing for the end. -/
structure Ends (raw : Text) (lead : Bool) (middle : Text) (trail : Bool) : Prop where
  parts : (if lead then [dot] else []) ++ (middle ++ if trail then [dot] else []) = raw
  lead : lead = false → raw.head? ≠ some dot
  trail : trail = false → middle.getLast? ≠ some dot

/-- There is only one way to take a key apart. -/
theorem Ends.splitEnds_eq (h : Ends raw lead middle trail) :
    splitEnds raw = (lead, middle, trail) := by
  obtain ⟨rfl, hlead, htrail⟩ := h
  have hend : ∀ rest : Text, rest = middle ++ (if trail then [dot] else []) →
      (rest.getLast? == some dot) = trail ∧ (if trail then rest.dropLast else rest) = middle := by
    rintro _ rfl
    cases trail with
    | true => simp
    | false => simpa using htrail rfl
  obtain ⟨htrail, hmiddle⟩ := hend _ rfl
  cases lead with
  | true => simp only [splitEnds, if_true, List.singleton_append, List.head?_cons, beq_self_eq_true,
      List.drop_succ_cons, List.drop_zero, htrail, hmiddle]
  | false =>
    have hhead := beq_eq_false_iff_ne.2 (hlead rfl)
    simp only [Bool.false_eq_true, if_false, List.nil_append] at hhead ⊢
    simp only [splitEnds, hhead, Bool.false_eq_true, if_false, htrail, hmiddle]

theorem exists_ends (hne : raw ≠ []) : ∃ lead middle trail, Ends raw lead middle trail := by
  obtain ⟨hparts, hlead, htrail⟩ := splitEnds_spec hne rfl
  refine ⟨_, _, _, hparts, fun h => ?_, htrail⟩
  simpa [splitEnds] using h

end PunycodeKey

namespace KeyEncoding

open PunycodeKey

variable {raw : Text}

/-- **Only the segments that need it are written anew.** A key that does not stay as a whole is
taken apart in one way. Its segments are then a bare tag for a period at the start, what becomes of
each segment of the middle part, and a bare tag for a period at the end. -/
theorem punycode_segmentwise (hne : raw ≠ [])
    (hother : ¬(StoreKey.check raw = .ok () ∧
      ∀ segment ∈ raw.pieces dot, segment.startsWith "xn--" = false)) :
    Segmentwise encodeSegment ∧
    (∃ lead middle trail, Ends raw lead middle trail) ∧
    ∃ key, punycode.encode raw = .ok key ∧ ∀ lead middle trail, Ends raw lead middle trail →
      key.pieces dot = (if lead then [("xn--" : Text)] else []) ++
        (middle.pieces dot).map encodeSegment ++ if trail then [("xn--" : Text)] else [] := by
  refine ⟨segmentwise_encodeSegment, exists_ends hne, ?_⟩
  obtain ⟨key, hkey⟩ := PunycodeKey.exists_encode_iff.2 hne
  refine ⟨key, hkey, fun lead middle trail hends => ?_⟩
  obtain ⟨-, ⟨hplain, -⟩ | ⟨-, lead', middle', trail', hsplit, rfl⟩⟩ :=
    PunycodeKey.encode_eq_ok_iff.1 hkey
  · rw [StoreKey.check_eq_ok_iff] at hother
    exact absurd (PunycodeKey.isPlain_iff.1 hplain) hother
  · rw [hends.splitEnds_eq] at hsplit
    cases hsplit
    exact pieces_join_segments (Text.pieces_ne_nil dot middle)

/-- Periods at both ends, a segment that is tagged already, an empty one, one that is not ASCII and
holds a blank, and two that stay. -/
theorem punycode_segmentwise_mixed : ∃ key, punycode.encode ".a_1.xn--b..ü x.c=/." = .ok key ∧
    key.pieces dot = ([tag, "a_1", "xn--xn--b-", "xn--", "xn--x-dha4711a", "c=/", tag] :
      List Text) := by
  have hother : ¬StoreKey.IsLegal ".a_1.xn--b..ü x.c=/." := by decide
  obtain ⟨-, -, key, hkey, hpieces⟩ := @punycode_segmentwise ".a_1.xn--b..ü x.c=/." (by decide)
    fun h => hother (StoreKey.check_eq_ok_iff.1 h.1)
  refine ⟨key, hkey, (hpieces true "a_1.xn--b..ü x.c=/" true ⟨rfl, by decide, by decide⟩).trans ?_⟩
  decide +kernel

end KeyEncoding

end SlidingCache
