import SlidingCache.Proofs.Store.Lawful
import SlidingCache.Proofs.Time.Instant
import SlidingCache.Store.Redis

/-!
# The store on a Redis server keeps its promises

The keys of a bucket do not get in each other's way, its counter has no deadline, and every numeral
in it is that of a number up to the counter (`RedisStore.Valid`). So revisions compare as numbers,
and the scripts do what the laws ask for, whether or not the server keeps a key through its deadline
itself.
-/

namespace SlidingCache.RedisStore

open StoreCall (deadlineOf)

variable {s : RedisStore} {now now' : Instant} {key k : Text} {value : Bytes}

/-! ## Keys and numerals -/

theorem entryKey_inj (h : s.entryKey key = s.entryKey k) : key = k :=
  List.append_cancel_left h

theorem entryKey_ne_counterKey : s.entryKey key ≠ s.counterKey := by
  intro h
  simp only [entryKey, counterKey, List.append_assoc, List.append_cancel_left_eq] at h
  -- the letters after the colon differ
  injection h with _ h
  injection h with h _
  exact absurd h (by decide)

theorem revisionOf_ofNat {n : Nat} : revisionOf (Text.ofNat n) = n := by
  simp [revisionOf, Text.natOf?_ofNat]

theorem ofInt_eq_ofNat_iff {n : Nat} {r : Revision} : Text.ofInt r = Text.ofNat n ↔ r = n := by
  constructor
  · intro h
    cases r with
    | ofNat m =>
      have : Text.natOf? (Text.ofNat m) = Text.natOf? (Text.ofNat n) := congrArg _ h
      rw [Text.natOf?_ofNat, Text.natOf?_ofNat] at this
      exact congrArg Int.ofNat (Option.some.inj this)
    | negSucc m =>
      -- a hyphen is no digit
      have hmem : CodePoint.ofChar '-' ∈ Text.ofNat n := by
        rw [← h]; exact List.mem_cons_self
      exact absurd (Text.isDigit_of_mem_ofNat n _ hmem) (by decide)
  · rintro rfl; rfl

theorem ofInt_ne_nil {r : Revision} : Text.ofInt r ≠ [] := by
  cases r with
  | ofNat n => exact Text.ofNat_ne_nil n
  | negSucc n => simp [Text.ofInt]

/-! ## What is seen of the keyspace -/

/-- The revision of the last write, as the counter has it. -/
def lastRevision (s : RedisStore) : Revision :=
  match s.keyspace.keys.get? s.counterKey with
  | some ⟨.counter t, _⟩ => revisionOf t
  | _ => 0

/-- What a key of the server shows of itself. -/
def slotOf (k : RedisKey) : Option Slot :=
  match k with
  | ⟨.entry value revision, deadline⟩ => some ⟨value, revisionOf revision, deadline⟩
  | ⟨.counter _, _⟩ => none

def slot? (s : RedisStore) (now : Instant) : View :=
  fun key => (s.keyspace.get? (s.entryKey key) now.utcUs).bind slotOf

structure Valid (s : RedisStore) : Prop where
  counted : ∀ {k}, s.keyspace.keys.get? s.counterKey = some k →
    ∃ n, k = ⟨.counter (Text.ofNat n), none⟩
  numbered : ∀ {key k}, s.keyspace.keys.get? (s.entryKey key) = some k →
    ∃ value n deadline, k = ⟨.entry value (Text.ofNat n), deadline⟩ ∧ (n : Int) ≤ s.lastRevision

theorem valid_empty {keepsAtDeadline : Bool} {space bucket : Text} :
    Valid ⟨{ keepsAtDeadline }, space, bucket⟩ where
  counted h := by cases h
  numbered h := by cases h

theorem isLive_of_le {row : RedisKey} (h : s.keyspace.isLive row now'.utcUs)
    (hle : now.utcUs ≤ now'.utcUs) : s.keyspace.isLive row now.utcUs := by
  simp only [Keyspace.isLive] at *
  split at h
  · rfl
  · split at h <;> simp_all <;> omega

theorem exists_deadline_of_isLive {row : RedisKey} (h : s.keyspace.isLive row now.utcUs = false) :
    ∃ d, row.deadline = some d ∧ d ≤ now.utcUs := by
  simp only [Keyspace.isLive] at h
  split at h
  · cases h
  · rename_i d hd
    refine ⟨d, hd, ?_⟩
    split at h <;> simp at h <;> omega

theorem slot?_eq {row : RedisKey} (h : s.keyspace.keys.get? (s.entryKey key) = some row) :
    s.slot? now key = if s.keyspace.isLive row now.utcUs then slotOf row else none := by
  simp only [slot?, Keyspace.get?, h, Option.filter]
  split <;> rfl

theorem slot?_eq_none (h : s.keyspace.keys.get? (s.entryKey key) = none) :
    s.slot? now key = none := by
  simp [slot?, Keyspace.get?, h]

theorem slot?_later (hle : now.utcUs ≤ now'.utcUs) (h : s.Valid) :
    s.slot? now' key = s.slot? now key ∨
      s.slot? now' key = none ∧
        ∃ x d, s.slot? now key = some x ∧ x.deadline = some d ∧ d ≤ now'.utcUs := by
  cases hrow : s.keyspace.keys.get? (s.entryKey key) with
  | none => simp [slot?_eq_none hrow]
  | some row =>
    simp only [slot?_eq hrow]
    cases hlater : s.keyspace.isLive row now'.utcUs with
    | true => simp [isLive_of_le hlater hle]
    | false =>
      cases hnow : s.keyspace.isLive row now.utcUs with
      | false => simp
      | true =>
        obtain ⟨value, n, deadline, rfl, -⟩ := h.numbered hrow
        obtain ⟨d, hd, hdle⟩ := exists_deadline_of_isLive hlater
        exact .inr ⟨rfl, _, d, rfl, hd, hdle⟩

/-- What a script finds under a key, and how that is seen. -/
theorem Valid.get?_cases (h : s.Valid) (key : Text) (now : Instant) :
    s.keyspace.get? (s.entryKey key) now.utcUs = none ∧ s.slot? now key = none ∨
      ∃ value, ∃ n : Nat, ∃ d,
        s.keyspace.get? (s.entryKey key) now.utcUs = some ⟨.entry value (Text.ofNat n), d⟩ ∧
          s.slot? now key = some ⟨value, n, d⟩ ∧ n ≤ s.lastRevision := by
  cases hrow : s.keyspace.get? (s.entryKey key) now.utcUs with
  | none => exact .inl ⟨rfl, by rw [slot?, hrow]; rfl⟩
  | some row =>
    obtain ⟨value, n, d, rfl, hle⟩ := h.numbered (Option.filter_eq_some_iff.1 hrow).1
    refine .inr ⟨value, n, d, rfl, ?_, hle⟩
    rw [slot?, hrow, Option.bind_some, slotOf, revisionOf_ofNat]

theorem Valid.revision_le {x : Slot} (h : s.Valid) (hx : s.slot? now key = some x) :
    x.revision ≤ s.lastRevision := by
  rcases h.get?_cases key now with ⟨-, hnone⟩ | ⟨value, n, d, -, hsome, hle⟩
  · rw [hnone] at hx; cases hx
  · rw [hsome] at hx; cases hx; exact hle

/-- What a read answers. -/
theorem Valid.entry?_eq (h : s.Valid) :
    (s.keyspace.entry? (s.entryKey key) now.utcUs).map (fun (v, r) => (⟨v, revisionOf r⟩ : Held))
      = (s.slot? now key).map Slot.held := by
  rcases h.get?_cases key now with ⟨hget, hslot⟩ | ⟨value, n, d, hget, hslot, -⟩
  · simp [Keyspace.entry?, hget, hslot]
  · simp [Keyspace.entry?, hget, hslot, revisionOf_ofNat, Slot.held]

/-- Revisions compare as numerals. -/
theorem Valid.entry?_revision_iff {r : Revision} (h : s.Valid) :
    (s.keyspace.entry? (s.entryKey key) now.utcUs).map Prod.snd = some (Text.ofInt r) ↔
      (s.slot? now key).map Slot.revision = some r := by
  rcases h.get?_cases key now with ⟨hget, hslot⟩ | ⟨value, n, d, hget, hslot, -⟩
  · simp [Keyspace.entry?, hget, hslot]
  · simp only [Keyspace.entry?, hget, hslot, Option.map_some, Option.some.injEq]
    rw [eq_comm, ofInt_eq_ofNat_iff, eq_comm]

/-! ## Scripts -/

theorem Valid.counter_eq (h : s.Valid) (now : Instant) :
    (s.keyspace.counter s.counterKey now.utcUs : Int) = s.lastRevision := by
  simp only [Keyspace.counter, Keyspace.get?, lastRevision]
  cases hk : s.keyspace.keys.get? s.counterKey with
  | none => rfl
  | some k =>
    obtain ⟨n, rfl⟩ := h.counted hk
    simp [Option.filter, Keyspace.isLive, revisionOf]

/-- The counter is set without a deadline. -/
theorem Valid.increment_eq (h : s.Valid) :
    s.keyspace.increment s.counterKey now.utcUs =
      (s.keyspace.counter s.counterKey now.utcUs + 1,
        s.keyspace.set s.counterKey
          ⟨.counter (Text.ofNat (s.keyspace.counter s.counterKey now.utcUs + 1)), none⟩) := by
  simp only [Keyspace.increment]
  cases hk : s.keyspace.get? s.counterKey now.utcUs with
  | none => rfl
  | some k =>
    obtain ⟨n, rfl⟩ := h.counted (Option.filter_eq_some_iff.1 hk).1
    rfl

/-- The store with other keys on its server. -/
def withKeys (s : RedisStore) (keys : Table Text RedisKey) : RedisStore :=
  { s with keyspace := { s.keyspace with keys } }

section
variable {keys : Table Text RedisKey}

@[simp] theorem keys_withKeys : (s.withKeys keys).keyspace.keys = keys := rfl

@[simp] theorem entryKey_withKeys : (s.withKeys keys).entryKey key = s.entryKey key := rfl

@[simp] theorem counterKey_withKeys : (s.withKeys keys).counterKey = s.counterKey := rfl

/-- Where the keys are the same, the same is seen. -/
theorem slot?_withKeys
    (h : keys.get? (s.entryKey k) = s.keyspace.keys.get? (s.entryKey k)) :
    (s.withKeys keys).slot? now k = s.slot? now k :=
  congrArg (fun row => (row.filter (s.keyspace.isLive · now.utcUs)).bind slotOf) h

theorem lastRevision_withKeys (h : keys.get? s.counterKey = s.keyspace.keys.get? s.counterKey) :
    (s.withKeys keys).lastRevision = s.lastRevision := by
  simp only [lastRevision, keys_withKeys, counterKey_withKeys, h]

end

/-- The keys of the server after a write of revision `n`. -/
def written (s : RedisStore) (key : Text) (value : Bytes) (n : Nat) (deadline : Option Int) :
    Table Text RedisKey :=
  let keys := s.keyspace.keys.put s.counterKey ⟨.counter (Text.ofNat n), none⟩
  keys.put (s.entryKey key) ⟨.entry value (Text.ofNat n), deadline⟩

section
variable {n : Nat} {d : Option Int}

theorem Valid.putScript_eq (h : s.Valid) (key : Text) (value : Bytes) (ms : Option Nat)
    (now : Instant) :
    ∃ n : Nat, s.lastRevision + 1 = n ∧ s.putScript key value ms now.utcUs =
      ((n : Int),
        s.withKeys (s.written key value n (ms.map fun ms : Nat => now.utcUs + ms * 1000))) := by
  refine ⟨s.keyspace.counter s.counterKey now.utcUs + 1, ?_, ?_⟩
  · have hcounter := h.counter_eq now
    rw [← hcounter]
    rfl
  · simp only [putScript, h.increment_eq]
    cases ms <;> rfl

theorem get?_written (s : RedisStore) (key k : Text) (value : Bytes) (n : Nat) (d : Option Int) :
    (s.written key value n d).get? (s.entryKey k) =
    if key = k then some ⟨.entry value (Text.ofNat n), d⟩
    else s.keyspace.keys.get? (s.entryKey k) := by
  simp only [written, Table.get?_put]
  by_cases hk : key = k
  · simp [hk]
  · simp [hk, mt entryKey_inj hk, entryKey_ne_counterKey.symm]

theorem get?_counterKey_written : (s.written key value n d).get? s.counterKey =
    some ⟨.counter (Text.ofNat n), none⟩ := by
  simp [written, Table.get?_put, entryKey_ne_counterKey]

theorem lastRevision_written : (s.withKeys (s.written key value n d)).lastRevision = n := by
  simp only [lastRevision, keys_withKeys, counterKey_withKeys, get?_counterKey_written,
    revisionOf_ofNat]

theorem Valid.written (h : s.Valid) (hn : s.lastRevision ≤ n) :
    (s.withKeys (s.written key value n d)).Valid where
  counted hrow := by
    rw [keys_withKeys, counterKey_withKeys, get?_counterKey_written] at hrow
    exact ⟨n, (Option.some.inj hrow).symm⟩
  numbered {k row} hrow := by
    rw [keys_withKeys, entryKey_withKeys, get?_written] at hrow
    rw [lastRevision_written]
    split at hrow
    · cases hrow
      exact ⟨value, n, d, rfl, Int.le_refl _⟩
    · obtain ⟨value', m, d', rfl, hle⟩ := h.numbered hrow
      exact ⟨value', m, d', rfl, Int.le_trans hle hn⟩

theorem slot?_written (hd : ∀ t ∈ d, now.utcUs < t) :
    (s.withKeys (s.written key value n d)).slot? now =
      (s.slot? now).set key (some ⟨value, n, d⟩) := by
  funext k
  by_cases hk : k = key
  · subst hk
    have hlive : (s.withKeys (s.written k value n d)).keyspace.isLive
        ⟨.entry value (Text.ofNat n), d⟩ now.utcUs := by
      cases d with
      | none => rfl
      | some t =>
        have := hd t rfl
        simp only [Keyspace.isLive]
        split <;> simp <;> omega
    have hget := get?_written s k k value n d
    have hkey : (s.withKeys (s.written k value n d)).entryKey k = s.entryKey k := entryKey_withKeys
    rw [if_pos rfl, ← hkey] at hget
    rw [View.set_self, slot?_eq hget, if_pos hlive, slotOf, revisionOf_ofNat]
  · rw [View.set_of_ne hk]
    exact slot?_withKeys ((get?_written s key k value n d).trans (if_neg (Ne.symm hk)))

end

theorem get?_erase_entryKey : (s.keyspace.keys.erase (s.entryKey key)).get? (s.entryKey k) =
    if key = k then none else s.keyspace.keys.get? (s.entryKey k) := by
  rw [Table.get?_erase]
  by_cases hk : key = k
  · simp [hk]
  · simp [hk, mt entryKey_inj hk]

theorem get?_counterKey_erase : (s.keyspace.keys.erase (s.entryKey key)).get? s.counterKey =
    s.keyspace.keys.get? s.counterKey := by
  rw [Table.get?_erase, if_neg entryKey_ne_counterKey]

theorem Valid.erased (h : s.Valid) :
    (s.withKeys (s.keyspace.keys.erase (s.entryKey key))).Valid where
  counted hrow := by
    rw [keys_withKeys, counterKey_withKeys, get?_counterKey_erase] at hrow
    exact h.counted hrow
  numbered {k row} hrow := by
    rw [keys_withKeys, entryKey_withKeys, get?_erase_entryKey] at hrow
    rw [lastRevision_withKeys get?_counterKey_erase]
    split at hrow
    · cases hrow
    · exact h.numbered hrow

theorem slot?_erased : (s.withKeys (s.keyspace.keys.erase (s.entryKey key))).slot? now =
    (s.slot? now).set key none := by
  funext k
  by_cases hk : k = key
  · subst hk
    rw [View.set_self]
    refine slot?_eq_none ?_
    rw [keys_withKeys, entryKey_withKeys, get?_erase_entryKey, if_pos rfl]
  · rw [View.set_of_ne hk]
    exact slot?_withKeys (get?_erase_entryKey.trans (if_neg (Ne.symm hk)))

/-! ## The laws -/

theorem ttlMilliseconds_eq_ok {ttl : Option Duration} {ms : Option Nat}
    (h : ttlMilliseconds ttl = .ok ms) (now : Instant) :
    (∀ d ∈ ttl, d.isPositive) ∧
      ms.map (fun ms : Nat => now.utcUs + ms * 1000) = deadlineOf ttl now ∧
      ∀ t ∈ deadlineOf ttl now, now.utcUs < t := by
  cases ttl with
  | none => cases h; simp [deadlineOf]
  | some ttl =>
    simp only [ttlMilliseconds] at h
    split at h
    · rename_i hpos
      cases h
      have := Duration.one_le_milliseconds hpos
      refine ⟨by simpa using hpos, rfl, ?_⟩
      simp only [deadlineOf, Option.map_some, Option.mem_some_iff]
      rintro t rfl
      omega
    · cases h

theorem refusal_of_ttlMilliseconds {call : StoreCall} {view : View} {e : StoreFault}
    (h : ttlMilliseconds call.ttl? = .error e) : Refusal now view call e := by
  cases httl : call.ttl? with
  | none => rw [httl] at h; cases h
  | some ttl =>
    rw [httl] at h
    simp only [ttlMilliseconds] at h
    split at h
    · cases h
    · rename_i hpos
      cases h
      exact .ttlNotPositive httl (by simpa using hpos)

/-- What the laws demand of a call that gave a reply and a store. -/
def Lawfully (s : RedisStore) (now : Instant) (call : StoreCall)
    (after : Except StoreFault call.Reply × RedisStore) : Prop :=
  after.2.Valid ∧
    Performed now (s.slot? now) s.lastRevision call after.1 (after.2.slot? now) after.2.lastRevision

theorem Valid.refused {call : StoreCall} {fault : StoreFault} (h : s.Valid)
    (hr : Refusal now (s.slot? now) call fault) : Lawfully s now call (.error fault, s) :=
  ⟨h, .refused hr (Int.le_refl _)⟩

theorem Valid.putScript {ttl : Option Duration} {ms : Option Nat} (h : s.Valid)
    (hms : ttlMilliseconds ttl = .ok ms) (key : Text) (value : Bytes) (now : Instant) :
    ∃ n t, s.putScript key value ms now.utcUs = (n, t) ∧ t.Valid ∧ s.lastRevision < n ∧
      t.lastRevision = n ∧ (∀ d ∈ ttl, d.isPositive) ∧
      t.slot? now = (s.slot? now).set key (some ⟨value, n, deadlineOf ttl now⟩) := by
  obtain ⟨hpos, hdeadline, hlive⟩ := ttlMilliseconds_eq_ok hms now
  obtain ⟨n, hn, heq⟩ := h.putScript_eq key value ms now
  have hlt : s.lastRevision < n := hn ▸ Int.lt_succ _
  refine ⟨n, _, heq, h.written (Int.le_of_lt hlt), hlt, lastRevision_written, hpos, ?_⟩
  rw [hdeadline]
  exact slot?_written hlive

theorem Valid.deleted {expected : Option Revision} (h : s.Valid) (hlegal : StoreKey.IsLegal key)
    (hexpected : ∀ n ∈ expected, (s.slot? now key).map Slot.revision = some n) :
    Lawfully s now (.delete key expected)
      (.ok (), s.withKeys (s.keyspace.keys.erase (s.entryKey key))) := by
  refine ⟨h.erased, ?_⟩
  dsimp only
  rw [slot?_erased, lastRevision_withKeys get?_counterKey_erase]
  exact .deleted hlegal hexpected

theorem lawfully_put {ttl : Option Duration} (h : s.Valid) :
    Lawfully s now (.put key value ttl) (s.put key value ttl now.utcUs) := by
  unfold put
  cases hkey : StoreKey.check key with
  | error e => exact h.refused (.invalidKey hkey)
  | ok =>
    cases hms : ttlMilliseconds ttl with
    | error e => exact h.refused (refusal_of_ttlMilliseconds hms)
    | ok ms =>
      obtain ⟨n, t, heq, hvalid, hlt, hlast, hpos, hslot⟩ := h.putScript hms key value now
      simp only [Chain.mapError_ok, heq]
      refine ⟨hvalid, ?_⟩
      rw [hslot, hlast]
      exact .put (StoreKey.check_eq_ok_iff.1 hkey) hlt hpos

theorem lawfully_get (h : s.Valid) : Lawfully s now (.get key) (s.get key now.utcUs) := by
  unfold get
  cases hkey : StoreKey.check key with
  | error e => exact h.refused (.invalidKey hkey)
  | ok =>
    simp only [Chain.mapError_ok, h.entry?_eq]
    exact ⟨h, .got (StoreKey.check_eq_ok_iff.1 hkey)⟩

theorem lawfully_delete {expected : Option Revision} (h : s.Valid) :
    Lawfully s now (.delete key expected) (s.delete key expected now.utcUs) := by
  unfold delete
  cases hkey : StoreKey.check key with
  | error e => exact h.refused (.invalidKey hkey)
  | ok =>
    have hlegal := StoreKey.check_eq_ok_iff.1 hkey
    cases expected with
    | none => exact h.deleted hlegal (by simp)
    | some n =>
      simp only [Chain.mapError_ok, deleteScript, Option.map_some, Option.getD_some,
        List.isEmpty_iff, ofInt_ne_nil, false_or, h.entry?_revision_iff]
      by_cases hn : (s.slot? now key).map Slot.revision = some n
      · simp only [hn, if_true]
        exact h.deleted hlegal (by simpa using hn)
      · simp only [hn, if_false]
        exact h.refused (.conflict rfl hn)

theorem lawfully_update {expected : Revision} {ttl : Option Duration} (h : s.Valid) :
    Lawfully s now (.update key value expected ttl)
      (s.update key value expected ttl now.utcUs) := by
  unfold update
  cases hkey : StoreKey.check key with
  | error e => exact h.refused (.invalidKey hkey)
  | ok =>
    cases hms : ttlMilliseconds ttl with
    | error e => exact h.refused (refusal_of_ttlMilliseconds hms)
    | ok ms =>
      simp only [Chain.mapError_ok, updateScript, h.entry?_revision_iff]
      by_cases hn : (s.slot? now key).map Slot.revision = some expected
      · obtain ⟨n, t, heq, hvalid, hlt, hlast, hpos, hslot⟩ := h.putScript hms key value now
        simp only [hn, if_true, heq]
        refine ⟨hvalid, ?_⟩
        rw [hslot, hlast]
        exact .updated (StoreKey.check_eq_ok_iff.1 hkey) hlt hpos hn
      · simp only [hn, if_false]
        exact h.refused (.conflict rfl hn)

theorem lawful (call : StoreCall) (h : s.Valid) :
    Lawfully s now call (Store.perform now call s) := by
  cases call with
  | put key value ttl => exact lawfully_put h
  | get key => exact lawfully_get h
  | delete key expected => exact lawfully_delete h
  | update key value expected ttl => exact lawfully_update h

instance : LawfulStore RedisStore where
  Valid := Valid
  lastRevision := lastRevision
  slot? := slot?
  revision_le := Valid.revision_le
  later _ h hle := slot?_later hle h
  valid_perform h := (lawful _ h).1
  performed _ _ h := (lawful _ h).2

end SlidingCache.RedisStore
