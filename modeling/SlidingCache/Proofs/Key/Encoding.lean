import SlidingCache.Cache.Basic
import SlidingCache.Proofs.Key.Percent
import SlidingCache.Proofs.Key.Punycode

/-!
# Application keys and their store keys

Whatever the encoding and the prefix, a store key is legal (`Cache.isLegal_storeKey`) and belongs to
one application key only (`Cache.storeKey_injective`).

* `KeyEncoding.percent_reversible`: percent keys represent all keys with a UTF-8 form.
* `KeyEncoding.punycode_reversible`: punycode keys represent all keys.
-/

namespace SlidingCache

variable {raw raw' key : Text}

namespace KeyEncoding

variable {encoding : KeyEncoding}

theorem decode_encode (h : encoding.encode raw = .ok key) : encoding.decode key = .ok raw := by
  cases encoding with
  | percent => exact PercentKey.decode_encode h
  | punycode => exact PunycodeKey.decode_encode h

theorem isLegal_encode (h : encoding.encode raw = .ok key) : StoreKey.IsLegal key := by
  cases encoding with
  | percent => exact PercentKey.isLegal_encode h
  | punycode => exact PunycodeKey.isLegal_encode h

theorem encode_injective (h : encoding.encode raw = .ok key) (h' : encoding.encode raw' = .ok key) :
    raw = raw' := Except.ok.inj ((decode_encode h).symm.trans (decode_encode h'))

/-- A store key stands for a key: the store accepts it, it is read back, and no other key is
written the same. -/
structure Represents (encoding : KeyEncoding) (raw key : Text) : Prop where
  written : encoding.encode raw = .ok key
  legal : StoreKey.check key = .ok ()
  read : encoding.decode key = .ok raw
  unique : ∀ other, encoding.encode other = .ok key → other = raw

theorem represents_iff : encoding.Represents raw key ↔ encoding.encode raw = .ok key := by
  refine ⟨fun h => h.written, fun h => ⟨h, ?_, decode_encode h, fun other hother => ?_⟩⟩
  · exact StoreKey.check_eq_ok_iff.2 (isLegal_encode h)
  · exact encode_injective hother h

/-- **Percent keys are reversible.** The empty key and those with a surrogate are refused, every
other key is represented. A key is left alone if it is made of letters, digits and `-_./` with no
period at an end; what is written otherwise holds the marker. -/
theorem percent_reversible (raw : Text) :
    (∀ e, percent.encode raw = .error e ↔
      raw = [] ∧ e = ⟨raw, .emptyKey⟩ ∨ (∃ c ∈ raw, c.isSurrogate) ∧ e = ⟨raw, .notUtf8⟩) ∧
    ((∃ key, percent.Represents raw key) ↔ raw ≠ [] ∧ ∀ c ∈ raw, c.isSurrogate = false) ∧
    (percent.encode raw = .ok raw ↔ raw ≠ [] ∧ raw.isDotBounded = false ∧
      ∀ c ∈ raw, c.isAlphanumeric ∨ c ∈ ("-_./" : Text)) ∧
    ∀ key, percent.encode raw = .ok key → key = raw ∨ CodePoint.ofChar '=' ∈ key := by
  refine ⟨fun e => PercentKey.encode_eq_error_iff, ?_, ?_, fun key h => ?_⟩
  · simp only [represents_iff]
    exact PercentKey.exists_encode_iff
  · exact PercentKey.encode_eq_self_iff.trans PercentKey.isPlain_iff
  · rcases PercentKey.marker_mem_of_encode h with ⟨-, heq⟩ | ⟨-, -, hmem⟩
    · exact .inl heq
    · exact .inr hmem

/-- **Punycode keys are reversible.** Only the empty key is refused, every other key is
represented. A key is left alone if the store accepts it and no segment of it is tagged; what is
written otherwise has a tagged segment. -/
theorem punycode_reversible (raw : Text) :
    (∀ e, punycode.encode raw = .error e ↔ raw = [] ∧ e = ⟨raw, .emptyKey⟩) ∧
    ((∃ key, punycode.Represents raw key) ↔ raw ≠ []) ∧
    (punycode.encode raw = .ok raw ↔ StoreKey.check raw = .ok () ∧
      ∀ segment ∈ raw.pieces dot, segment.startsWith "xn--" = false) ∧
    ∀ key, punycode.encode raw = .ok key →
      key = raw ∨ ∃ segment ∈ key.pieces dot, segment.startsWith "xn--" := by
  refine ⟨fun e => PunycodeKey.encode_eq_error_iff, ?_, ?_, fun key h => ?_⟩
  · simp only [represents_iff]
    exact PunycodeKey.exists_encode_iff
  · rw [StoreKey.check_eq_ok_iff]
    exact PunycodeKey.encode_eq_self_iff.trans PunycodeKey.isPlain_iff
  · rcases PunycodeKey.tagged_of_encode h with ⟨-, heq⟩ | ⟨-, htagged⟩
    · exact .inl heq
    · exact .inr htagged

end KeyEncoding

namespace Cache

variable {cache : Cache}

theorem underPrefix_injective {encoded encoded' : Text}
    (h : cache.underPrefix encoded = cache.underPrefix encoded') : encoded = encoded' := by
  unfold underPrefix at h
  split at h
  · exact h
  · exact (List.cons.inj (List.append_cancel_left h)).2

theorem storeKey_eq_ok_iff : cache.storeKey raw = .ok key ↔
    ∃ encoded, cache.encoding.encode raw = .ok encoded ∧ cache.underPrefix encoded = key :=
  Chain.map_eq_ok

theorem isLegal_storeKey (h : cache.storeKey raw = .ok key) : StoreKey.IsLegal key := by
  obtain ⟨encoded, hencoded, rfl⟩ := storeKey_eq_ok_iff.1 h
  have hlegal := KeyEncoding.isLegal_encode hencoded
  unfold underPrefix
  split
  · exact hlegal
  · rename_i hne
    rcases cache.prefix_legal with hnil | hprefix
    · rw [hnil] at hne
      exact absurd rfl hne
    · exact hprefix.append hlegal

/-- No two application keys share a store key. -/
theorem storeKey_injective (h : cache.storeKey raw = .ok key) (h' : cache.storeKey raw' = .ok key) :
    raw = raw' := by
  obtain ⟨encoded, hencoded, hkey⟩ := storeKey_eq_ok_iff.1 h
  obtain ⟨encoded', hencoded', hkey'⟩ := storeKey_eq_ok_iff.1 h'
  obtain rfl := underPrefix_injective (hkey.trans hkey'.symm)
  exact KeyEncoding.encode_injective hencoded hencoded'

end Cache

end SlidingCache
