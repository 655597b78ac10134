import SlidingCache.Entry
import SlidingCache.Proofs.Json.RoundTrip
import SlidingCache.Proofs.Time.Instant
import SlidingCache.Proofs.Time.Iso8601

/-!
# Entries written and read back

What `Entry.encode` writes is read back as the entry with its bound in UTC (`Entry.decode_encode`).
It writes whatever has a bound that the calendar holds in UTC and a window of at most 64 bits
(`Entry.exists_encode_iff`). For bounds with an offset both come together in
`Entry.restored_of_aware`.
-/

namespace SlidingCache

namespace Instant

variable {i j : Instant}

theorem inUtc_spec (h : i.inUtc = .ok j) : j.offset = some .utc ∧ j.utcUs = i.utcUs := by
  unfold inUtc at h
  split at h
  · cases h
  · unfold withReading at h
    split at h
    · rename_i hus
      cases h
      refine ⟨rfl, ?_⟩
      simp only [utcUs, Option.map_some, Option.getD_some, Offset.utc] at hus ⊢
      omega
    · cases h

theorem isAware_inUtc (h : i.inUtc = .ok j) : j.isAware := isAware_of_utc (inUtc_spec h).1

theorem exists_inUtc (haware : i.isAware) (hlow : 0 ≤ i.utcUs) (hhigh : i.utcUs < calendarUs) :
    ∃ j, i.inUtc = .ok j := by
  simp only [inUtc, haware, Bool.not_true, Bool.false_eq_true, false_and, if_false, withReading]
  rw [dif_pos ⟨hlow, hhigh⟩]
  exact ⟨_, rfl⟩

theorem exists_inUtc_iff (haware : i.isAware) :
    (∃ j, i.inUtc = .ok j) ↔ 0 ≤ i.utcUs ∧ i.utcUs < calendarUs := by
  constructor
  · rintro ⟨j, hj⟩
    obtain ⟨hoffset, hus⟩ := inUtc_spec hj
    have hreading := utcUs_of_utc hoffset
    have hlt := j.inCalendar
    omega
  · rintro ⟨hlow, hhigh⟩
    exact exists_inUtc haware hlow hhigh

end Instant

theorem Duration.ofMicroseconds_us (d : Duration) : ofMicroseconds d.us = .ok d := dif_pos d.inRange

namespace Entry

variable {e : Entry} {data : Bytes} {now : Instant}

/-! ## Bounds -/

theorem isExpired_eq {bound : Instant} (h : e.absolute = some bound)
    (haware : now.isAware = bound.isAware) :
    e.isExpired now = .ok (decide (bound.utcUs < now.utcUs)) := by
  simp only [isExpired, h, Instant.compare?, haware, if_true]
  show Except.ok (compare now.utcUs bound.utcUs == .gt) = _
  cases ho : compare now.utcUs bound.utcUs with
  | lt => rw [decide_eq_false (Int.not_lt.2 (Int.le_of_lt (Int.compare_eq_lt.1 ho)))]; rfl
  | eq => rw [decide_eq_false (Int.not_lt.2 (Int.le_of_eq (Int.compare_eq_eq.1 ho)))]; rfl
  | gt => rw [decide_eq_true (Int.compare_eq_gt.1 ho)]; rfl

/-! ## The line in front of the payload -/

theorem splitLine_append {line payload : Bytes} (h : lineFeed ∉ line) :
    splitLine (line ++ lineFeed :: payload) = some (line, payload) := by
  have hline : ∀ b ∈ line, (decide (b ≠ lineFeed)) = true := by
    intro b hb
    exact decide_eq_true fun heq => h (heq ▸ hb)
  have hstop : (lineFeed :: payload).dropWhile (fun b => decide (b ≠ lineFeed)) =
      lineFeed :: payload := rfl
  have htake : (lineFeed :: payload).takeWhile (fun b => decide (b ≠ lineFeed)) = [] := rfl
  rw [splitLine, List.dropWhile_append_of_pos hline, List.takeWhile_append_of_pos hline, hstop,
    htake, List.append_nil]

/-- No octet of a character is a line feed but that of the line feed itself. -/
theorem lineFeed_not_mem_octets {c : CodePoint} (h : 0x20 ≤ c.val) : lineFeed ∉ c.octets := by
  have hlt := c.lt
  have ne : ∀ {n : Nat}, 0x20 ≤ n → n < 0x100 → lineFeed ≠ UInt8.ofNat n := by
    intro n hlow hhigh heq
    have := congrArg UInt8.toNat heq
    rw [Utf8.toNat_ofNat hhigh] at this
    have : (10 : Nat) = n := this
    omega
  intro hmem
  unfold CodePoint.octets at hmem
  dsimp only at hmem
  split at hmem
  · exact ne h (by omega) (List.mem_singleton.1 hmem)
  split at hmem
  · simp only [List.mem_cons, List.not_mem_nil, or_false] at hmem
    rcases hmem with hmem | hmem <;> exact ne (by omega) (by omega) hmem
  split at hmem
  · simp only [List.mem_cons, List.not_mem_nil, or_false] at hmem
    rcases hmem with hmem | hmem | hmem <;> exact ne (by omega) (by omega) hmem
  · simp only [List.mem_cons, List.not_mem_nil, or_false] at hmem
    rcases hmem with hmem | hmem | hmem | hmem <;> exact ne (by omega) (by omega) hmem

/-! ## The header -/

/-- The header object of a bound and a window. -/
def header (absolute : Option Instant) (sliding : Option Duration) : Json :=
  .obj ((absolute.map fun i => (absoluteField, Json.str i.toText)).toList
    ++ (sliding.map fun d => (slidingField, Json.int d.us)).toList)

theorem encode_eq_ok_iff : e.encode = .ok data ↔ ∃ absolute text,
    e.absolute.mapM Instant.inUtc = .ok absolute ∧ (header absolute e.sliding).toText = .ok text ∧
      data = text.flatMap CodePoint.octets ++ lineFeed :: e.payload := by
  constructor
  · intro h
    obtain ⟨fields, hfields, h⟩ := Chain.bind_eq_ok.1 h
    obtain ⟨text, htext, ⟨⟩⟩ := Chain.bind_eq_ok.1 h
    obtain ⟨absolute, habsolute, ⟨⟩⟩ := Chain.bind_eq_ok.1 (Chain.mapError_eq_ok.1 hfields)
    exact ⟨absolute, text, habsolute, Chain.mapError_eq_ok.1 htext, rfl⟩
  · rintro ⟨absolute, text, habsolute, htext, rfl⟩
    have hfields : e.headerFields = .ok _ := Chain.bind_eq_ok.2 ⟨_, habsolute, rfl⟩
    refine Chain.bind_eq_ok.2 ⟨_, Chain.mapError_eq_ok.2 hfields, ?_⟩
    exact Chain.bind_eq_ok.2 ⟨text, Chain.mapError_eq_ok.2 htext, rfl⟩

theorem isExact_header {absolute : Option Instant} {sliding : Option Duration} :
    (header absolute sliding).IsExact := by
  have hne : absoluteField ≠ slidingField := by decide
  cases absolute with
  | none => cases sliding <;> simp [header, Json.IsExact, Json.FieldsAreExact]
  | some i => cases sliding <;> simp [header, Json.IsExact, Json.FieldsAreExact, hne]

/-- What becomes of a bound, and what it has in common with the bound that was given. -/
theorem mapM_inUtc_eq_ok {bound absolute : Option Instant}
    (h : bound.mapM Instant.inUtc = .ok absolute) :
    absolute.map Instant.utcUs = bound.map Instant.utcUs ∧
      ∀ i ∈ absolute, i.offset = some .utc := by
  cases bound with
  | none => cases h; exact ⟨rfl, by rintro i ⟨⟩⟩
  | some bound =>
    obtain ⟨i, hi, rfl⟩ := Chain.map_eq_ok.1 h
    obtain ⟨hoffset, hus⟩ := Instant.inUtc_spec hi
    refine ⟨congrArg some hus, ?_⟩
    intro j hj
    cases hj
    exact hoffset

theorem readAbsolute_toText {absolute : Option Instant} (h : ∀ i ∈ absolute, i.offset = some .utc) :
    readAbsolute (absolute.map fun i => .str i.toText) = .ok absolute := by
  cases absolute with
  | none => rfl
  | some i =>
    have hi := h i rfl
    have haware := Instant.isAware_of_utc hi
    simp only [Option.map_some, readAbsolute, Instant.ofText?_toText hi, haware, if_true]

theorem readSliding_us {sliding : Option Duration} :
    readSliding (sliding.map fun d => .int d.us) = .ok sliding := by
  cases sliding with
  | none => rfl
  | some d => simp only [Option.map_some, readSliding, Duration.ofMicroseconds_us]

/-- The header ends where the payload begins. -/
theorem splitLine_line {text : Text} {absolute : Option Instant} {sliding : Option Duration}
    {payload : Bytes} (htext : (header absolute sliding).toText = .ok text) :
    splitLine (text.flatMap CodePoint.octets ++ lineFeed :: payload) =
      some (text.flatMap CodePoint.octets, payload) := by
  apply splitLine_append
  intro hmem
  obtain ⟨c, hc, hmem⟩ := List.mem_flatMap.1 hmem
  exact lineFeed_not_mem_octets (Json.visible_of_toText isExact_header htext c hc).1 hmem

section
variable {absolute : Option Instant} {sliding : Option Duration} {fields : List (Text × Json)}

theorem get?_absoluteField (h : header absolute sliding = .obj fields) :
    Json.get? absoluteField fields = absolute.map fun i => .str i.toText := by
  have hne : absoluteField ≠ slidingField := by decide
  cases h
  cases absolute <;> cases sliding <;> simp [Json.get?, hne.symm]

theorem get?_slidingField (h : header absolute sliding = .obj fields) :
    Json.get? slidingField fields = sliding.map fun d => .int d.us := by
  have hne : absoluteField ≠ slidingField := by decide
  cases h
  cases absolute <;> cases sliding <;> simp [Json.get?, hne]

end

theorem decode_line {text : Text} {absolute : Option Instant} {sliding : Option Duration}
    {payload : Bytes} (hoffset : ∀ i ∈ absolute, i.offset = some .utc)
    (htext : (header absolute sliding).toText = .ok text) :
    decode (text.flatMap CodePoint.octets ++ lineFeed :: payload) =
      .ok ⟨payload, absolute, sliding⟩ := by
  simp only [decode, splitLine_line htext, Json.ofBytes?_octets isExact_header htext]
  obtain ⟨fields, hfields⟩ : ∃ fields, header absolute sliding = .obj fields := ⟨_, rfl⟩
  simp only [hfields, get?_absoluteField hfields, get?_slidingField hfields,
    readAbsolute_toText hoffset, readSliding_us]
  rfl

/-- **An entry is read back** with its bound in UTC. -/
theorem decode_encode (h : e.encode = .ok data) :
    ∃ absolute, e.absolute.mapM Instant.inUtc = .ok absolute ∧
      decode data = .ok ⟨e.payload, absolute, e.sliding⟩ := by
  obtain ⟨absolute, text, habsolute, htext, rfl⟩ := encode_eq_ok_iff.1 h
  exact ⟨absolute, habsolute, decode_line (mapM_inUtc_eq_ok habsolute).2 htext⟩

theorem exists_toText_header_iff {absolute : Option Instant} {sliding : Option Duration}
    (h : ∀ i ∈ absolute, i.offset = some .utc) :
    (∃ text, (header absolute sliding).toText = .ok text) ↔
      ∀ d ∈ sliding, Json.leastInteger ≤ d.us ∧ d.us ≤ Json.greatestInteger := by
  have hnames : (∃ token, Json.strToken absoluteField = .ok token) ∧
      ∃ token, Json.strToken slidingField = .ok token := ⟨⟨_, rfl⟩, ⟨_, rfl⟩⟩
  have hstr : ∀ i ∈ absolute, ∃ written, (Json.str i.toText).tokens 1 = .ok written := by
    intro i hi
    obtain ⟨token, htoken⟩ := (Json.exists_strToken_iff (t := i.toText)).2 fun c hc =>
      CodePoint.isSurrogate_of_isAscii
        (List.all_eq_true.1 (Instant.all_isAscii_toText (h i hi)) c hc)
    exact ⟨[token], Chain.bind_eq_ok.2 ⟨token, htoken, rfl⟩⟩
  have hint : ∀ n, (∃ written, (Json.int n).tokens 1 = .ok written) ↔
      Json.leastInteger ≤ n ∧ n ≤ Json.greatestInteger := by
    intro n
    rw [Json.tokens]
    split <;> simp_all
  rw [header, Json.exists_toText_obj_iff]
  constructor
  · rintro hfields d ⟨⟩
    exact (hint _).1 (hfields (slidingField, .int d.us) (by simp)).2
  · intro hsliding field hfield
    rcases List.mem_append.1 hfield with hfield | hfield
    · obtain ⟨i, rfl, rfl⟩ : ∃ i, absolute = some i ∧
          (absoluteField, Json.str i.toText) = field := by
        simpa using hfield
      exact ⟨hnames.1, hstr i rfl⟩
    · obtain ⟨d, rfl, rfl⟩ : ∃ d, sliding = some d ∧ (slidingField, Json.int d.us) = field := by
        simpa using hfield
      exact ⟨hnames.2, (hint _).2 (hsliding d rfl)⟩

/-- An entry can be written just when UTC has its bound and 64 bits hold its window. -/
theorem exists_encode_iff : (∃ data, e.encode = .ok data) ↔
    (∃ absolute, e.absolute.mapM Instant.inUtc = .ok absolute) ∧
      ∀ d ∈ e.sliding, Json.leastInteger ≤ d.us ∧ d.us ≤ Json.greatestInteger := by
  constructor
  · rintro ⟨data, h⟩
    obtain ⟨absolute, text, habsolute, htext, -⟩ := encode_eq_ok_iff.1 h
    exact ⟨⟨absolute, habsolute⟩,
      (exists_toText_header_iff (mapM_inUtc_eq_ok habsolute).2).1 ⟨text, htext⟩⟩
  · rintro ⟨⟨absolute, habsolute⟩, hsliding⟩
    obtain ⟨text, htext⟩ := (exists_toText_header_iff (mapM_inUtc_eq_ok habsolute).2).2 hsliding
    exact ⟨_, encode_eq_ok_iff.2 ⟨absolute, text, habsolute, htext, rfl⟩⟩

theorem exists_mapM_inUtc_iff {bound : Option Instant} (haware : ∀ i ∈ bound, i.isAware) :
    (∃ absolute, bound.mapM Instant.inUtc = .ok absolute) ↔
      ∀ i ∈ bound, 0 ≤ i.utcUs ∧ i.utcUs < calendarUs := by
  cases bound with
  | none =>
    refine ⟨fun _ => ?_, fun _ => ⟨none, rfl⟩⟩
    rintro i ⟨⟩
  | some i =>
    have hone := Instant.exists_inUtc_iff (haware i rfl)
    constructor
    · rintro ⟨absolute, h⟩ j ⟨⟩
      obtain ⟨utc, hutc, -⟩ := Chain.map_eq_ok.1 h
      exact hone.1 ⟨utc, hutc⟩
    · intro h
      obtain ⟨utc, hutc⟩ := hone.2 (h i rfl)
      exact ⟨some utc, Chain.map_eq_ok.2 ⟨utc, hutc, rfl⟩⟩

/-- **An entry is restored**: the payload octet by octet, the bound as the same instant in UTC, and
the window. It is written just when the bound is within the calendar in UTC and 64 bits hold the
microseconds of the window. -/
theorem restored_of_aware (haware : ∀ bound ∈ e.absolute, bound.isAware) :
    ((∃ data, e.encode = .ok data) ↔
      (∀ bound ∈ e.absolute, 0 ≤ bound.utcUs ∧ bound.utcUs < calendarUs) ∧
        ∀ window ∈ e.sliding, -9223372036854775808 ≤ window.us ∧ window.us ≤ 18446744073709551615) ∧
    ∀ data, e.encode = .ok data → ∃ absolute,
      decode data = .ok ⟨e.payload, absolute, e.sliding⟩ ∧
        absolute.map Instant.utcUs = e.absolute.map Instant.utcUs ∧
          ∀ bound ∈ absolute, bound.offset = some .utc := by
  constructor
  · rw [exists_encode_iff, exists_mapM_inUtc_iff haware]
    rfl
  · intro data h
    obtain ⟨absolute, habsolute, hdecode⟩ := decode_encode h
    obtain ⟨hinstant, hutc⟩ := mapM_inUtc_eq_ok habsolute
    exact ⟨absolute, hdecode, hinstant, hutc⟩

/-- Half an hour after New Year 2026 in a place that is ahead of UTC by an hour and half a second,
so the bound is in 2025 by UTC. The payload looks like a stored value itself. -/
def afterNewYear : Entry where
  payload := [0x7B, 0x7D, 0x0A, 0x61, 0x0A]
  absolute := some ⟨63902824200000000, some ⟨3600500000, by decide⟩, by decide⟩
  sliding := some ⟨18446744073709551615, by decide⟩

theorem restored_afterNewYear : (∀ bound ∈ afterNewYear.absolute, bound.isAware) ∧
    ∃ data, afterNewYear.encode = .ok data ∧ ∃ absolute,
      decode data = .ok ⟨afterNewYear.payload, absolute, afterNewYear.sliding⟩ ∧
        absolute.map Instant.utcUs = afterNewYear.absolute.map Instant.utcUs ∧
          ∀ bound ∈ absolute, bound.offset = some .utc := by
  have haware : ∀ bound ∈ afterNewYear.absolute, bound.isAware := by
    rintro _ ⟨⟩
    rfl
  obtain ⟨hencode, hrestored⟩ := restored_of_aware haware
  have hbound : ∀ bound ∈ afterNewYear.absolute, 0 ≤ bound.utcUs ∧ bound.utcUs < calendarUs := by
    rintro _ ⟨⟩
    decide
  have hwindow : ∀ window ∈ afterNewYear.sliding,
      -9223372036854775808 ≤ window.us ∧ window.us ≤ 18446744073709551615 := by
    rintro _ ⟨⟩
    decide
  obtain ⟨data, hdata⟩ := hencode.2 ⟨hbound, hwindow⟩
  exact ⟨haware, data, hdata, hrestored data hdata⟩

end Entry

end SlidingCache
