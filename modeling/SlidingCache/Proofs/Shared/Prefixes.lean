import SlidingCache.Proofs.Shared.Asked

/-!
# Prefixes that part a bucket

Two caches on one bucket keep out of each other's way if their prefixes are apart: they differ, and
neither goes on where the other ends (`Cache.IsApart`). Then no store key belongs to both, and none
of what one of them does is seen under a key of the other (`Fleet.prefixes_part`).

A prefix that goes on where another one ends gives no such protection, for a period may stand in an
encoded key as well as in a prefix. What the longer prefix adds is then read as the beginning of a
key, and the empty prefix ends before every other (`Fleet.prefixes_meet`).
-/

namespace SlidingCache

open LawfulStore

/-! ## Plain keys put together -/

namespace Text

variable {sep : CodePoint} {t t' : Text}

/-- The pieces of two texts with a separator between them are the pieces of both. -/
theorem pieces_append_sep : pieces sep (t ++ sep :: t') = pieces sep t ++ pieces sep t' := by
  induction t with
  | nil => simp [pieces]
  | cons c r ih =>
    rw [List.cons_append, pieces, pieces]
    split
    · rw [ih, List.cons_append]
    · rw [ih]
      obtain ⟨p, l, hpieces⟩ := List.exists_cons_of_ne_nil (pieces_ne_nil sep r)
      simp [hpieces]

end Text

namespace KeyEncoding

variable {encoding : KeyEncoding} {m raw : Text}

/-- Keys that are left alone are left alone with a period between them. -/
theorem encode_append_of_self (hm : encoding.encode m = .ok m)
    (hraw : encoding.encode raw = .ok raw) :
    encoding.encode (m ++ dot :: raw) = .ok (m ++ dot :: raw) := by
  have hlegal : StoreKey.IsLegal (m ++ dot :: raw) :=
    (isLegal_encode hm).append (isLegal_encode hraw)
  cases encoding with
  | percent =>
    have hm := (PercentKey.isPlain_iff.1 (PercentKey.encode_eq_self_iff.1 hm)).2.2
    have hraw := (PercentKey.isPlain_iff.1 (PercentKey.encode_eq_self_iff.1 hraw)).2.2
    refine PercentKey.encode_eq_self_iff.2 (PercentKey.isPlain_iff.2 ?_)
    refine ⟨hlegal.ne_nil, hlegal.not_dotBounded, fun c hc => ?_⟩
    rcases List.mem_append.1 hc with hc | hc
    · exact hm c hc
    · rcases List.mem_cons.1 hc with rfl | hc
      · exact .inr (by decide)
      · exact hraw c hc
  | punycode =>
    have hm := (PunycodeKey.isPlain_iff.1 (PunycodeKey.encode_eq_self_iff.1 hm)).2
    have hraw := (PunycodeKey.isPlain_iff.1 (PunycodeKey.encode_eq_self_iff.1 hraw)).2
    refine PunycodeKey.encode_eq_self_iff.2 (PunycodeKey.isPlain_iff.2 ⟨hlegal, fun s hs => ?_⟩)
    rw [Text.pieces_append_sep] at hs
    rcases List.mem_append.1 hs with hs | hs
    · exact hm s hs
    · exact hraw s hs

end KeyEncoding

/-! ## Prefixes -/

namespace Cache

variable {c c' : Cache} {m encoded encoded' raw raw' key : Text}

/-- The second prefix goes on where the first one ends. The empty prefix ends at the start. -/
def Extends (c c' : Cache) : Prop := ∃ m, c'.keyPrefix = c.underPrefix m

theorem underPrefix_of_eq_nil (h : c.keyPrefix = []) : c.underPrefix encoded = encoded := by
  simp [underPrefix, h]

theorem underPrefix_of_ne_nil (h : c.keyPrefix ≠ []) :
    c.underPrefix encoded = c.keyPrefix ++ dot :: encoded := by
  simp [underPrefix, h]

theorem extends_iff : c.Extends c' ↔ c.keyPrefix = [] ∨ c.keyPrefix ++ [dot] <+: c'.keyPrefix := by
  by_cases hc : c.keyPrefix = []
  · simp [Extends, hc, underPrefix_of_eq_nil hc]
  · simp [Extends, hc, underPrefix_of_ne_nil hc, List.IsPrefix, eq_comm]

instance : Decidable (c.Extends c') := decidable_of_iff _ extends_iff.symm

/-- Neither prefix is the other or goes on where the other ends. -/
structure IsApart (c c' : Cache) : Prop where
  ne : c.keyPrefix ≠ c'.keyPrefix
  not_extends : ¬ c.Extends c'
  not_extended : ¬ c'.Extends c

/-- What the longer prefix adds is the beginning of a key under the shorter one. -/
theorem underPrefix_eq (h : c'.keyPrefix = c.underPrefix m) (hm : m ≠ []) :
    c'.underPrefix encoded = c.underPrefix (m ++ dot :: encoded) := by
  by_cases hc : c.keyPrefix = []
  · rw [underPrefix_of_eq_nil hc] at h ⊢
    rw [underPrefix_of_ne_nil (h ▸ hm), h]
  · rw [underPrefix_of_ne_nil hc] at h ⊢
    have hne : c'.keyPrefix ≠ [] := by simp [h]
    rw [underPrefix_of_ne_nil hne, h]
    simp

theorem IsApart.underPrefix_ne (h : c.IsApart c') :
    c.underPrefix encoded ≠ c'.underPrefix encoded' := by
  intro heq
  have hc : c.keyPrefix ≠ [] := fun hnil => h.not_extends ⟨_, (underPrefix_of_eq_nil hnil).symm⟩
  have hc' : c'.keyPrefix ≠ [] := fun hnil => h.not_extended ⟨_, (underPrefix_of_eq_nil hnil).symm⟩
  rw [underPrefix_of_ne_nil hc, underPrefix_of_ne_nil hc'] at heq
  -- one prefix is the beginning of the other, and a period follows it there
  rcases List.append_eq_append_iff.1 heq with ⟨rest, hlonger, htail⟩ | ⟨rest, hlonger, htail⟩
  · cases rest with
    | nil => exact h.ne (by simp [hlonger])
    | cons a m =>
      obtain ⟨rfl, -⟩ := List.cons.inj htail
      exact h.not_extends ⟨m, by rw [underPrefix_of_ne_nil hc, hlonger]⟩
  · cases rest with
    | nil => exact h.ne (by simp [hlonger])
    | cons a m =>
      obtain ⟨rfl, -⟩ := List.cons.inj htail
      exact h.not_extended ⟨m, by rw [underPrefix_of_ne_nil hc', hlonger]⟩

/-- Caches whose prefixes are apart have no store key in common. -/
theorem IsApart.storeKey_ne (h : c.IsApart c') (hkey : c.storeKey raw = .ok key) :
    c'.storeKey raw' ≠ .ok key := by
  intro hkey'
  obtain ⟨encoded, -, rfl⟩ := storeKey_eq_ok_iff.1 hkey
  obtain ⟨encoded', -, heq⟩ := storeKey_eq_ok_iff.1 hkey'
  exact h.underPrefix_ne heq.symm

/-- Where one prefix goes on for the other, plain keys meet. -/
theorem storeKey_eq_of_extends (hencoding : c.encoding = c'.encoding)
    (hlonger : c'.keyPrefix = c.underPrefix m) (hm : c.encoding.encode m = .ok m)
    (hraw : c.encoding.encode raw = .ok raw) :
    c.storeKey (m ++ dot :: raw) = c'.storeKey raw := by
  have hne : m ≠ [] := (KeyEncoding.isLegal_encode hm).ne_nil
  rw [storeKey, KeyEncoding.encode_append_of_self hm hraw, storeKey, ← hencoding, hraw]
  exact congrArg Except.ok (underPrefix_eq hlonger hne).symm

end Cache

namespace Fleet

variable {σ : Type} [Store σ] [LawfulStore σ] {s : Fleet σ} {i : Nat} {e : Event}

/-- Nothing that a cache does is seen under the store keys of another one. -/
structure Spares (s : Fleet σ) (i : Nat) (cache other : Cache) : Prop where
  /-- No store key belongs to both. -/
  keys {raw raw' key : Text} : cache.storeKey raw = .ok key → other.storeKey raw' ≠ .ok key
  access {e : Event} {a : Access σ} {raw key : Text} : e.isOwn → s.access? i e = some a →
    other.storeKey raw = .ok key → a.call.key ≠ key
  slot {e : Event} {raw key : Text} : e.isOwn → other.storeKey raw = .ok key →
    slot? (s.step i e).store s.now key = slot? s.store s.now key

theorem IsApt.spares {cache : LiveCache σ} {other : Cache} (h : s.IsApt) (hs : Valid s.store)
    (hi : s.caches[i]? = some cache) (hapart : cache.cache.IsApart other) :
    s.Spares i cache.cache other := by
  have haccess : ∀ {e : Event} {a : Access σ} {raw key : Text}, e.isOwn →
      s.access? i e = some a → other.storeKey raw = .ok key → a.call.key ≠ key := by
    intro e a raw key he ha hkey heq
    obtain ⟨raw', hown⟩ := (h.access he hi ha).1
    exact hapart.storeKey_ne hown (heq ▸ hkey)
  exact {
    keys := hapart.storeKey_ne
    access := haccess
    slot := fun he hkey => slot?_step_of_get hs fun a ha heq => absurd heq (haccess he ha hkey) }

end Fleet

/-- **Prefixes that are apart part a bucket.** Whatever happens to any caches on one bucket, nothing
that one of them does is seen under the store keys of another one if their prefixes are apart. If one
prefix goes on where the other ends, then plain keys meet. -/
theorem Fleet.prefixes_part {store : AnyStore} (hvalid : Valid store) (now : Instant)
    (caches : List (Cache × Backend)) (events : List (Nat × Event)) :
    let s := (start store now caches).run events
    (∀ (i j : Nat) (cache other : LiveCache AnyStore), s.caches[i]? = some cache →
      s.caches[j]? = some other → cache.cache.IsApart other.cache →
      s.Spares i cache.cache other.cache) ∧
    ∀ (c c' : Cache) (m raw : Text), c.encoding = c'.encoding → c'.keyPrefix = c.underPrefix m →
      c.encoding.encode m = .ok m → c.encoding.encode raw = .ok raw →
      c.storeKey (m ++ dot :: raw) = c'.storeKey raw := by
  constructor
  · intro i j cache other hi _ hapart
    have hapt : ((start store now caches).run events).IsApt := isApt_start.run
    exact hapt.spares (valid_run hvalid) hi hapart
  · intro c c' m raw hencoding hlonger hm hraw
    exact Cache.storeKey_eq_of_extends hencoding hlonger hm hraw

/-- Prefixes that differ in their first letter, at the moment when one cache is to write. -/
theorem Fleet.prefixes_part_oneTwo : ∃ (s : Fleet AnyStore) (one two : LiveCache AnyStore),
    s = (start (.memory {}) default
        [({ keyPrefix := "one", prefix_legal := .inr (by decide) }, ⟨"cache", false⟩),
          ({ keyPrefix := "two", prefix_legal := .inr (by decide) }, ⟨"cache", false⟩)]).run
      [(0, .start (.set "k" [1] {}) true), (0, .begin 0), (0, .ask 0), (0, .beginAttempt 0),
        (0, .endAttempt 0 (.opened 0)), (0, .wake 0)] ∧
      (s.access? 0 (.perform 0)).map (·.call.key) = some ("one.k" : Text) ∧
      two.cache.storeKey "k" = .ok "two.k" ∧ s.Spares 0 one.cache two.cache := by
  refine ⟨_, _, _, rfl, by decide +kernel, ?_, (prefixes_part MemoryStore.valid_default _ _ _).1
    0 1 _ _ rfl rfl ⟨by decide +kernel, by decide +kernel, by decide +kernel⟩⟩
  · decide +kernel

/-- The empty prefix ends before every other one. What a cache without prefix writes under `a.b` is
what a cache with the prefix `a` finds under `b`. -/
theorem Fleet.prefixes_meet :
    (¬ ∀ (c c' : Cache), c.encoding = c'.encoding → c.keyPrefix ≠ c'.keyPrefix →
      ∀ raw raw' key, c.storeKey raw = .ok key → c'.storeKey raw' ≠ .ok key) ∧
    ((start (.memory {} : AnyStore) default
        [({}, ⟨"cache", false⟩),
          ({ keyPrefix := "a", prefix_legal := .inr (by decide) }, ⟨"cache", false⟩)]).run
      [(0, .start (.set "a.b" [1] {}) true), (0, .begin 0), (0, .ask 0), (0, .beginAttempt 0),
        (0, .endAttempt 0 (.opened 0)), (0, .wake 0), (0, .perform 0), (1, .start (.get "b") true),
        (1, .begin 0), (1, .ask 0), (1, .beginAttempt 0), (1, .endAttempt 0 (.opened 0)),
        (1, .wake 0), (1, .perform 0)]).caches[1]?.bind
          (fun cache => (cache.answer? 0).bind Except.toOption) = some (.payload (some [1])) := by
  constructor
  · intro h
    let c : Cache := { keyPrefix := "a", prefix_legal := .inr (by decide) }
    exact h {} c rfl (by decide) "a.b" "b" "a.b" (by decide) (by decide)
  · decide +kernel

end SlidingCache
