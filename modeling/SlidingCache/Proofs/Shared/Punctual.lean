import Mathlib.Order.Bounds.Basic
import SlidingCache.Proofs.Number.Nearest
import SlidingCache.Proofs.Shared.History

/-!
# Times to live in whole milliseconds

Stores count a time to live in milliseconds. The quotient becomes a number of 53 bits before it is
rounded up, so what is rounded up is not always the quotient itself: from `2 ^ 44` milliseconds on
a single microsecond more is lost. Below, the milliseconds are the exact ceiling, and so every store
keeps what is written for all of its time to live and less than a millisecond longer (`Punctual`).
-/

namespace SlidingCache

open LawfulStore ExactStore
open StoreCall (deadlineOf)

namespace Duration

variable {d e : Duration}

/-- What is rounded up to milliseconds. -/
theorem exists_isRounding (h : d.isPositive) :
    ∃ b, Binary64.IsRounding (d.us / 1000) b ∧ (d.milliseconds : ℤ) = ⌈b.value⌉ := by
  have hpos := isPositive_iff.1 h
  obtain ⟨b, hb, -⟩ := exists_nearest? h
  refine ⟨b, ?_, ?_⟩
  · have hround := Binary64.isRounding_nearest? (by omega) (by decide) hb
    rwa [← Int.cast_natCast (R := ℚ) d.us.toNat, Int.toNat_of_nonneg hpos.le] at hround
  · rw [milliseconds, hb]
    exact Binary64.ceil_eq b

/-- A longer time to live has no fewer milliseconds. -/
theorem milliseconds_le (h : d.isPositive) (hle : d ≤ e) : d.milliseconds ≤ e.milliseconds := by
  have hle : d.us ≤ e.us := hle
  rcases hle.lt_or_eq with hlt | heq
  · have hpos := isPositive_iff.1 h
    obtain ⟨a, ha, hd⟩ := exists_isRounding h
    obtain ⟨b, hb, he⟩ := exists_isRounding (d := e) (isPositive_iff.2 (by omega))
    have hquot : (d.us : ℚ) / 1000 < e.us / 1000 := by
      rw [div_lt_div_iff_of_pos_right (by norm_num)]
      exact_mod_cast hlt
    have hceil := Int.ceil_mono (ha.value_le_value hb hquot)
    omega
  · rw [milliseconds, milliseconds, heq]

theorem ceil_us_div (us : ℤ) : ⌈(us / 1000 : ℚ)⌉ = (us + 999) / 1000 := by
  have hsplit := Int.emod_add_mul_ediv (us + 999) 1000
  have hrest := Int.emod_lt_of_pos (us + 999) (by decide : (0 : ℤ) < 1000)
  have hnonneg := Int.emod_nonneg (us + 999) (by decide : (1000 : ℤ) ≠ 0)
  rw [Int.ceil_eq_iff]
  generalize (us + 999) / 1000 = q at *
  constructor
  · rw [lt_div_iff₀ (by norm_num)]
    exact_mod_cast (by omega : (q - 1) * 1000 < us)
  · rw [div_le_iff₀ (by norm_num)]
    exact_mod_cast (by omega : us ≤ q * 1000)

theorem ttlMilliseconds_eq_ok_iff {ms : Nat} :
    ttlMilliseconds (some d) = .ok (some ms) ↔ d.isPositive ∧ d.milliseconds = ms := by
  rw [ttlMilliseconds]
  split <;> simp [*]

/-- What the milliseconds of a time to live are. -/
structure IsRoundedUp (d : Duration) (ms : Nat) : Prop where
  /-- The quotient is rounded to 53 bits, and then up. -/
  rounded : ∃ b, Binary64.IsRounding (d.us / 1000) b ∧ (ms : ℤ) = ⌈b.value⌉
  one_le : 1 ≤ ms
  le_of_le : ∀ e n, d ≤ e → ttlMilliseconds (some e) = .ok (some n) → ms ≤ n
  exact : d.us ≤ 2 ^ 44 * 1000 → (ms : ℤ) = ⌈(d.us / 1000 : ℚ)⌉

theorem isRoundedUp_milliseconds (h : d.isPositive) : d.IsRoundedUp d.milliseconds where
  rounded := exists_isRounding h
  one_le := one_le_milliseconds h
  le_of_le e n hle hn := (ttlMilliseconds_eq_ok_iff.1 hn).2 ▸ milliseconds_le h hle
  exact hle := by rw [ceil_us_div, milliseconds_eq h hle]

end Duration

/-! ## Deadlines -/

section
variable {σ : Type} [Store σ] {past between : List (Access σ)} {a : Access σ} {key : Text}
  {held : Held} {ttl : Duration}

/-- The access has written a value for a time to live. -/
structure Access.WroteFor (a : Access σ) (held : Held) (ttl : Duration) : Prop where
  value : a.call.value? = some held.value
  given : a.given? = some held.revision
  ttl : a.call.ttl? = some ttl

theorem Access.WroteFor.left? (h : a.WroteFor held ttl) :
    a.left? = some ⟨held.value, held.revision, deadlineOf (some ttl) a.now⟩ := by
  obtain ⟨value, hleft⟩ := @StoreCall.left?_of_given? a.now _ _ _ h.given
  have hvalue : a.call.value? = some value := by
    obtain ⟨_, hvalue, hleft⟩ := Option.bind_eq_some_iff.1 hleft
    obtain ⟨_, -, ⟨⟩⟩ := Option.bind_eq_some_iff.1 hleft
    exact hvalue
  obtain rfl := Option.some.inj (h.value.symm.trans hvalue)
  rw [h.ttl] at hleft
  exact hleft

variable [LawfulStore σ] [ExactStore σ] {b : Access σ}

/-- While nothing else changes the key, the value is found as long as its deadline allows. -/
theorem Access.WroteFor.held?_eq (h : a.WroteFor held ttl) (ha : Valid a.store) (hb : Valid b.store)
    (hshows : Shows b.store b.now (past ++ a :: between))
    (hsince : ∀ c ∈ between, c.changes a.call.key = false) :
    held? b.store b.now a.call.key =
      if inTime (keepsAtDeadline b.store) b.now (deadlineOf (some ttl) a.now) then some held
      else none := by
  have hchanges := Access.changes_of_given? h.given
  have hlegal : StoreKey.IsLegal a.call.key :=
    (a.performed ha).isLegal (StoreCall.isOk_of_given? h.given)
  rw [held?_eq_slot? hb hlegal, hshows, lastChange?_of_changes hchanges hsince, Option.bind_some,
    h.left?]
  split <;> simp [Option.filter, *, Slot.held]

end

/-- Whatever the deadline is good for, what comes before it is in time and what comes after it is
not. -/
theorem inTime_deadlineOf {keeps : Bool} {now later : Instant} {ttl : Duration} :
    (later.utcUs < now.utcUs + ttl.milliseconds * 1000 →
      inTime keeps later (deadlineOf (some ttl) now)) ∧
    (now.utcUs + ttl.milliseconds * 1000 < later.utcUs →
      inTime keeps later (deadlineOf (some ttl) now) = false) := by
  simp only [deadlineOf, Option.map_some, inTime, Option.all_some]
  constructor
  · intro h
    split <;> simp <;> omega
  · intro h
    split <;> simp <;> omega

namespace AnyStore

/-- **What is written is kept for its time to live**, and for less than a millisecond longer. -/
structure Punctual (accesses : List (Access AnyStore)) : Prop where
  kept {past a between b since held ttl} : accesses = past ++ a :: (between ++ b :: since) →
    a.WroteFor held ttl → ttl.us ≤ 2 ^ 44 * 1000 → (∀ c ∈ between, c.changes a.call.key = false) →
    b.now.utcUs < a.now.utcUs + ttl.us → held? b.store b.now a.call.key = some held
  dropped {past a between b since held ttl} : accesses = past ++ a :: (between ++ b :: since) →
    a.WroteFor held ttl → ttl.us ≤ 2 ^ 44 * 1000 → (∀ c ∈ between, c.changes a.call.key = false) →
    a.now.utcUs + ttl.us + 1000 ≤ b.now.utcUs → held? b.store b.now a.call.key = none

theorem punctual_history {s : AnyStore} (hunused : s.IsUnused) {calls : List (Instant × StoreCall)}
    (hclock : calls.Pairwise fun c d => c.1.utcUs ≤ d.1.utcUs) : Punctual (history s calls) := by
  have found : ∀ {past a between b since held ttl},
      history s calls = past ++ a :: (between ++ b :: since) → a.WroteFor held ttl →
      ttl.us ≤ 2 ^ 44 * 1000 → (∀ c ∈ between, c.changes a.call.key = false) →
      (held? b.store b.now a.call.key =
        if inTime (keepsAtDeadline b.store) b.now (deadlineOf (some ttl) a.now) then some held
        else none) ∧ (ttl.milliseconds : ℤ) = (ttl.us + 999) / 1000 := by
    intro past a between b since held ttl heq hwrote hle hsince
    have hmem : a ∈ history s calls := by simp [heq]
    have ha : Valid a.store := valid_of_mem_history hunused.valid hmem
    have hpositive : ttl.isPositive :=
      ((a.performed ha).met (StoreCall.isOk_of_given? hwrote.given)).2 ttl hwrote.ttl
    rw [← List.cons_append, ← List.append_assoc] at heq
    obtain ⟨hb, hshows⟩ := Shows.of_unused hunused.valid hunused.slot?_eq_none hclock heq
    exact ⟨hwrote.held?_eq ha hb hshows hsince, Duration.milliseconds_eq hpositive hle⟩
  constructor
  · intro past a between b since held ttl heq hwrote hle hsince hearly
    obtain ⟨hfound, hms⟩ := found heq hwrote hle hsince
    rw [hfound, if_pos (inTime_deadlineOf.1 (by omega))]
  · intro past a between b since held ttl heq hwrote hle hsince hlate
    obtain ⟨hfound, hms⟩ := found heq hwrote hle hsince
    rw [hfound, inTime_deadlineOf.2 (by omega), if_neg Bool.false_ne_true]

end AnyStore

/-- A microsecond more than `2 ^ 44` milliseconds. -/
def Duration.firstInexact : Duration := ⟨2 ^ 44 * 1000 + 1, by decide⟩

/-- **Times to live are rounded up as promised.** Their milliseconds are at least one and keep the
order. Up to `2 ^ 44` milliseconds they are the exact ceiling, and the first time to live for which
they are not is a microsecond longer. So no store drops early what is written for no longer, or
keeps it a millisecond too long. -/
theorem ttlMilliseconds_roundsUp :
    (∀ d : Duration, d.isPositive →
      ∃ ms, ttlMilliseconds (some d) = .ok (some ms) ∧ d.IsRoundedUp ms) ∧
    IsLeast {us : ℤ | ∃ (d : Duration) (ms : Nat), d.us = us ∧
      ttlMilliseconds (some d) = .ok (some ms) ∧ (ms : ℤ) ≠ ⌈(us / 1000 : ℚ)⌉}
      (2 ^ 44 * 1000 + 1) ∧
    ∀ (s : AnyStore) (calls : List (Instant × StoreCall)), s.IsUnused →
      (calls.Pairwise fun c d => c.1.utcUs ≤ d.1.utcUs) → AnyStore.Punctual (history s calls) := by
  refine ⟨fun d hd => ?_, ⟨?_, ?_⟩, fun s calls hunused hclock => ?_⟩
  · exact ⟨_, Duration.ttlMilliseconds_eq_ok_iff.2 ⟨hd, rfl⟩, Duration.isRoundedUp_milliseconds hd⟩
  · refine ⟨Duration.firstInexact, 2 ^ 44, rfl, ?_, ?_⟩
    · rw [Duration.ttlMilliseconds_eq_ok_iff]
      exact ⟨by decide, by decide +kernel⟩
    · rw [Duration.ceil_us_div]
      decide
  · rintro _ ⟨d, ms, rfl, hms, hne⟩
    obtain ⟨hd, rfl⟩ := Duration.ttlMilliseconds_eq_ok_iff.1 hms
    refine Int.not_lt.1 fun hlt => hne ?_
    exact (Duration.isRoundedUp_milliseconds hd).exact (Int.lt_add_one_iff.1 hlt)
  · exact AnyStore.punctual_history hunused hclock

/-- A value for a single microsecond, which other calls and reads do not disturb. -/
def brief : List (Instant × StoreCall) :=
  let t (us : Nat) (h : us < calendarUs) : Instant := ⟨us, some .utc, h⟩
  [(default, .put "k" [1] (some ⟨1, by decide⟩)), (default, .get "k"),
    (t 500 (by decide), .put "j" [2] none), (t 500 (by decide), .update "k" [3] 2 none),
    (t 999 (by decide), .get "k"), (t 1000 (by decide), .get "k")]

/-- The value has gone a millisecond after it was written. -/
theorem ttlMilliseconds_roundsUp_brief : AnyStore.Punctual (history (.memory {}) brief) ∧
    (history (AnyStore.memory {}) brief).map (fun a => (held? a.store a.now "k").isSome) =
      [false, true, true, true, true, false] :=
  ⟨ttlMilliseconds_roundsUp.2.2 (.memory {}) brief .memory (by decide), by decide +kernel⟩

end SlidingCache
