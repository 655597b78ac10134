import SlidingCache.Proofs.Store.Redis
import SlidingCache.Text.Blank

/-!
# Buckets on one server

The store of a bucket uses a key of the server for its counter and one for every key that it accepts
(`RedisStore.Uses`), and no call changes any other one (`RedisStore.get?_perform_of_not_uses`).

Two buckets of a namespace have none of these in common, with one exception: a bucket may be named
like another one with `:k` behind it, and then its counter is the entry `rev` of the other
(`RedisStore.uses_both_iff`). All other buckets keep out of each other's way
(`RedisStore.buckets_part`).
-/

namespace SlidingCache

/-- Where a text is cut at its last separator. -/
theorem Text.eq_of_append_cons_eq {sep : CodePoint} {l l' m m' : Text} (hm : sep ∉ m)
    (hm' : sep ∉ m') (h : l ++ sep :: m = l' ++ sep :: m') : l = l' ∧ m = m' := by
  rcases List.append_eq_append_iff.1 h with ⟨rest, rfl, hrest⟩ | ⟨rest, rfl, hrest⟩
  · cases rest with
    | nil => exact ⟨(List.append_nil l).symm, (List.cons.inj hrest).2⟩
    | cons a rest =>
      obtain ⟨-, rfl⟩ := List.cons.inj hrest
      exact absurd (List.mem_append_right _ List.mem_cons_self) hm
  · cases rest with
    | nil => exact ⟨List.append_nil l', (List.cons.inj hrest).2.symm⟩
    | cons a rest =>
      obtain ⟨-, rfl⟩ := List.cons.inj hrest
      exact absurd (List.mem_append_right _ List.mem_cons_self) hm'

namespace RedisStore

variable {s s' : RedisStore} {key key' k : Text} {now : Instant}

/-- The keys of the server that the store of a bucket uses. -/
inductive Uses (s : RedisStore) : Text → Prop
  | counter : s.Uses s.counterKey
  | entry {key : Text} : StoreKey.IsLegal key → s.Uses (s.entryKey key)

/-! ## Keys of two buckets -/

def colon : CodePoint := CodePoint.ofChar ':'

theorem colon_not_mem_of_isLegal (h : StoreKey.IsLegal key) : colon ∉ key := fun hmem =>
  absurd (h.isChar colon hmem) (by decide)

theorem entryKey_eq (s : RedisStore) (key : Text) :
    s.entryKey key = (s.base ++ (":k" : Text)) ++ colon :: key := by
  rw [entryKey, show (":k:" : Text) = (":k" : Text) ++ [colon] from rfl]
  simp only [List.append_assoc, List.singleton_append]

theorem counterKey_eq (s : RedisStore) : s.counterKey = s.base ++ colon :: ("rev" : Text) := rfl

/-- A bucket with the name of another one of its namespace, and more. -/
theorem base_eq_append_iff (hspace : s.space = s'.space) {t : Text} :
    s'.base = s.base ++ t ↔ s'.bucket = s.bucket ++ t := by
  rw [base, base, hspace, List.append_assoc _ _ t, List.append_cancel_left_eq]

theorem bucket_eq_of_base (hspace : s.space = s'.space) (h : s.base = s'.base) :
    s.bucket = s'.bucket := by
  rw [base, base, hspace] at h
  exact List.append_cancel_left h

/-- No colon stands in a key that the store accepts, so an entry shows its bucket and its key. -/
theorem base_eq_of_entryKey (hkey : StoreKey.IsLegal key) (hkey' : StoreKey.IsLegal key')
    (h : s.entryKey key = s'.entryKey key') : s.base = s'.base ∧ key = key' := by
  rw [entryKey_eq, entryKey_eq] at h
  obtain ⟨hbase, rfl⟩ := Text.eq_of_append_cons_eq (colon_not_mem_of_isLegal hkey)
    (colon_not_mem_of_isLegal hkey') h
  exact ⟨List.append_cancel_right hbase, rfl⟩

theorem base_eq_of_counterKey (h : s.counterKey = s'.counterKey) : s.base = s'.base :=
  List.append_cancel_right h

/-- `rev` is a key that the store accepts. -/
theorem entryKey_eq_counterKey_iff (hkey : StoreKey.IsLegal key) :
    s.entryKey key = s'.counterKey ↔ s'.base = s.base ++ (":k" : Text) ∧ key = ("rev" : Text) := by
  rw [entryKey_eq, counterKey_eq]
  constructor
  · intro h
    obtain ⟨hbase, hrev⟩ := Text.eq_of_append_cons_eq (colon_not_mem_of_isLegal hkey)
      (by decide) h
    exact ⟨hbase.symm, hrev⟩
  · rintro ⟨hbase, rfl⟩
    rw [hbase]

/-- **Where two buckets of a namespace meet**: in the counter of one of them, if it is named like
the other one with `:k` behind it. -/
theorem uses_both_iff (hspace : s.space = s'.space) (hne : s.bucket ≠ s'.bucket) :
    s.Uses k ∧ s'.Uses k ↔
      s'.bucket = s.bucket ++ (":k" : Text) ∧ k = s'.counterKey ∨
        s.bucket = s'.bucket ++ (":k" : Text) ∧ k = s.counterKey := by
  have hbase : s.base ≠ s'.base := mt (bucket_eq_of_base hspace) hne
  constructor
  · rintro ⟨huses, huses'⟩
    cases huses with
    | counter =>
      generalize hk : s.counterKey = k at huses'
      cases huses' with
      | counter => exact absurd (base_eq_of_counterKey hk) hbase
      | entry hkey =>
        obtain ⟨hlonger, -⟩ := (entryKey_eq_counterKey_iff hkey).1 hk.symm
        exact .inr ⟨(base_eq_append_iff hspace.symm).1 hlonger, rfl⟩
    | @entry key hkey =>
      generalize hk : s.entryKey key = k at huses'
      cases huses' with
      | counter =>
        obtain ⟨hlonger, -⟩ := (entryKey_eq_counterKey_iff hkey).1 hk
        exact .inl ⟨(base_eq_append_iff hspace).1 hlonger, rfl⟩
      | entry hkey' => exact absurd (base_eq_of_entryKey hkey hkey' hk).1 hbase
  · have hrev : StoreKey.IsLegal ("rev" : Text) := by decide
    rintro (⟨hlonger, rfl⟩ | ⟨hlonger, rfl⟩)
    · have hbase := (base_eq_append_iff hspace).2 hlonger
      rw [← (entryKey_eq_counterKey_iff hrev).2 ⟨hbase, rfl⟩]
      exact ⟨.entry hrev, (entryKey_eq_counterKey_iff hrev).2 ⟨hbase, rfl⟩ ▸ .counter⟩
    · have hbase := (base_eq_append_iff hspace.symm).2 hlonger
      rw [← (entryKey_eq_counterKey_iff hrev).2 ⟨hbase, rfl⟩]
      exact ⟨(entryKey_eq_counterKey_iff hrev).2 ⟨hbase, rfl⟩ ▸ .counter, .entry hrev⟩

/-! ## What a call leaves alone -/

section
variable (hk : ¬ s.Uses k)
include hk

theorem get?_putScript_of_not_uses (hkey : StoreKey.IsLegal key) (value : Bytes) (ms : Option Nat)
    (us : Int) : (s.putScript key value ms us).2.keyspace.keys.get? k = s.keyspace.keys.get? k := by
  have hcounter : s.counterKey ≠ k := fun h => hk (h ▸ .counter)
  have hentry : s.entryKey key ≠ k := fun h => hk (h ▸ .entry hkey)
  simp only [putScript, Keyspace.increment, Keyspace.set, Table.get?_put, hcounter, hentry,
    if_false]

theorem get?_deleteScript_of_not_uses (hkey : StoreKey.IsLegal key) (expected : Text) (us : Int) :
    (s.deleteScript key expected us).2.keyspace.keys.get? k = s.keyspace.keys.get? k := by
  have hentry : s.entryKey key ≠ k := fun h => hk (h ▸ .entry hkey)
  unfold deleteScript
  split
  · simp only [Keyspace.delete, Table.get?_erase, hentry, if_false]
  · rfl

theorem get?_updateScript_of_not_uses (hkey : StoreKey.IsLegal key) (value : Bytes)
    (ms : Option Nat) (expected : Text) (us : Int) :
    (s.updateScript key value ms expected us).2.keyspace.keys.get? k =
      s.keyspace.keys.get? k := by
  unfold updateScript
  split
  · exact get?_putScript_of_not_uses hk hkey value ms us
  · rfl

/-- **A call changes no key that its bucket does not use.** -/
theorem get?_perform_of_not_uses (now : Instant) (call : StoreCall) :
    (Store.perform now call s).2.keyspace.keys.get? k = s.keyspace.keys.get? k := by
  cases call with
  | put key value ttl =>
    show (s.put key value ttl now.utcUs).2.keyspace.keys.get? k = _
    unfold put
    cases hkey : StoreKey.check key with
    | error => rfl
    | ok =>
      cases ttlMilliseconds ttl with
      | error => rfl
      | ok ms =>
        exact get?_putScript_of_not_uses hk (StoreKey.check_eq_ok_iff.1 hkey) value ms now.utcUs
  | get key =>
    show (s.get key now.utcUs).2.keyspace.keys.get? k = _
    unfold get
    cases StoreKey.check key <;> rfl
  | delete key expected =>
    show (s.delete key expected now.utcUs).2.keyspace.keys.get? k = _
    unfold delete
    cases hkey : StoreKey.check key with
    | error => rfl
    | ok =>
      have hlegal := StoreKey.check_eq_ok_iff.1 hkey
      rw [← get?_deleteScript_of_not_uses hk hlegal ((expected.map Text.ofInt).getD []) now.utcUs]
      dsimp only [Chain.mapError_ok]
      split <;> rfl
  | update key value expected ttl =>
    show (s.update key value expected ttl now.utcUs).2.keyspace.keys.get? k = _
    unfold update
    cases hkey : StoreKey.check key with
    | error => rfl
    | ok =>
      cases ttlMilliseconds ttl with
      | error => rfl
      | ok ms =>
        have hlegal := StoreKey.check_eq_ok_iff.1 hkey
        rw [← get?_updateScript_of_not_uses hk hlegal value ms (Text.ofInt expected) now.utcUs]
        dsimp only [Chain.mapError_ok]
        split <;> rename_i heq <;> rw [heq]

end

/-! ## Neighbours -/

/-- What the store of a bucket has to do with the store of another one on the same server. -/
structure Neighbours (s s' : RedisStore) : Prop where
  /-- In a bucket no key of the server stands for two things. -/
  entryKey_inj : ∀ {key key'}, s.entryKey key = s.entryKey key' → key = key'
  entryKey_ne : ∀ {key}, s.entryKey key ≠ s.counterKey
  meet : ∀ {k}, s.Uses k ∧ s'.Uses k ↔
    s'.bucket = s.bucket ++ (":k" : Text) ∧ k = s'.counterKey ∨
      s.bucket = s'.bucket ++ (":k" : Text) ∧ k = s.counterKey
  /-- Unless they meet, a call on the one store changes nothing that the other one shows. -/
  spared : ∀ {call : StoreCall} {now later : Instant}, s'.bucket ≠ s.bucket ++ (":k" : Text) →
    s.bucket ≠ s'.bucket ++ (":k" : Text) → s.keyspace.keys = s'.keyspace.keys →
    let after := s'.withKeys (Store.perform now call s).2.keyspace.keys
    (∀ key, StoreKey.IsLegal key → after.slot? later key = s'.slot? later key) ∧
      after.lastRevision = s'.lastRevision

/-- **Buckets of a namespace part the server**, but for those that are named like another one with
`:k` behind it: the counter of such a bucket is an entry of the other one. -/
theorem buckets_part (hspace : s.space = s'.space) (hne : s.bucket ≠ s'.bucket) :
    s.Neighbours s' where
  entryKey_inj := RedisStore.entryKey_inj
  entryKey_ne := entryKey_ne_counterKey
  meet := uses_both_iff hspace hne
  spared {call now later} hlonger hlonger' hkeys := by
    have hspared : ∀ k, s'.Uses k →
        (Store.perform now call s).2.keyspace.keys.get? k = s'.keyspace.keys.get? k := by
      intro k huses'
      have hnot : ¬ s.Uses k := fun huses =>
        ((uses_both_iff hspace hne).1 ⟨huses, huses'⟩).elim (hlonger ·.1) (hlonger' ·.1)
      rw [get?_perform_of_not_uses hnot, hkeys]
    exact ⟨fun key hkey => slot?_withKeys (hspared _ (.entry hkey)),
      lastRevision_withKeys (hspared _ .counter)⟩

/-- A bucket and one with a longer name that does not go on with `:k`. -/
theorem buckets_part_other :
    let s : RedisStore := ⟨{}, defaultSpace, "x"⟩
    let s' : RedisStore := ⟨{}, defaultSpace, "x:kk"⟩
    s.space = s'.space ∧ s.bucket ≠ s'.bucket ∧ s.Neighbours s' := by
  intro s s'
  exact ⟨rfl, by decide, buckets_part rfl (by decide)⟩

/-- The entry `rev` of the bucket `x` is where the bucket `x:k` counts its revisions. -/
theorem buckets_meet :
    let x : RedisStore := ⟨{}, defaultSpace, "x"⟩
    let y : RedisStore := ⟨{}, defaultSpace, "x:k"⟩
    (¬ ∀ space b b' : Text, b.isBlank = false → b'.isBlank = false → b ≠ b' →
      ∀ k, ¬ (Uses ⟨{}, space, b⟩ k ∧ Uses ⟨{}, space, b'⟩ k)) ∧
    (Store.perform default (.put "rev" [1] none) x).2.keyspace.keys.get? y.counterKey =
      some ⟨.entry [1] (Text.ofNat 1), none⟩ := by
  intro x y
  have hspace : x.space = y.space := rfl
  have hne : x.bucket ≠ y.bucket := by decide
  have hmeet : x.Uses y.counterKey ∧ y.Uses y.counterKey :=
    (uses_both_iff hspace hne).2 (.inl ⟨rfl, rfl⟩)
  exact ⟨fun h => h defaultSpace x.bucket y.bucket (by decide) (by decide) hne _ hmeet,
    by decide +kernel⟩

end RedisStore

end SlidingCache
