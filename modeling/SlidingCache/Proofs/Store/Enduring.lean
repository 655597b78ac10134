import SlidingCache.Proofs.Store.Exact

/-!
# What calls have left in a store

The clock hides what is dead, and it may go back. So a store is also seen without it: what calls
have left under a key, dead or live (`EnduringStore.kept?`). Of this the clock shows what is in
time, and all of it was there before a call or was written by it (`StoreCall.Leaves`).
-/

namespace SlidingCache

open LawfulStore ExactStore
open StoreCall (deadlineOf)

/-- All that is left after a call was there before it, or the call has written it. -/
def StoreCall.Leaves (call : StoreCall) (now : Instant) (before after : View) : Prop :=
  ∀ key x, after key = some x → before key = some x ∨
    call.key = key ∧ call.value? = some x.value ∧ x.deadline = deadlineOf call.ttl? now

/-- A store in which the clock only hides what calls have left. -/
class EnduringStore (σ : Type) [Store σ] [LawfulStore σ] [ExactStore σ] where
  /-- What calls have left under a key. -/
  kept? : σ → View
  slot?_eq {s : σ} {now key} : Valid s →
    slot? s now key = (kept? s key).filter fun x => inTime (keepsAtDeadline s) now x.deadline
  leaves {s : σ} (now : Instant) (call : StoreCall) : Valid s →
    call.Leaves now (kept? s) (kept? (Store.perform now call s).2)

namespace EnduringStore

variable {σ : Type} [Store σ] [LawfulStore σ] [ExactStore σ] [EnduringStore σ] {s : σ}
  {now later : Instant} {key : Text} {x : Slot}

theorem kept?_of_slot? (h : Valid s) (hx : slot? s now key = some x) : kept? s key = some x := by
  rw [slot?_eq h] at hx
  exact (Option.filter_eq_some_iff.1 hx).1

/-- What has no deadline is seen at any time. -/
theorem slot?_of_endless (h : Valid s) (hx : slot? s now key = some x) (hends : x.deadline = none) :
    slot? s later key = some x := by
  rw [slot?_eq h, kept?_of_slot? h hx, Option.filter, hends]
  rfl

/-- What has a deadline is not seen beyond it. -/
theorem slot?_of_past {d : Int} (h : Valid s) (hx : slot? s now key = some x)
    (hends : x.deadline = some d) (hlt : d < later.utcUs) : slot? s later key = none := by
  rw [slot?_eq h, kept?_of_slot? h hx, Option.filter, hends]
  have hpast : inTime (keepsAtDeadline s) later (some d) = false := by
    simp only [inTime, Option.all_some]
    split <;> simp <;> omega
  rw [hpast]
  rfl

end EnduringStore

/-! ## The store in memory -/

namespace MemoryStore

variable {s : MemoryStore} {now : Instant} {key k : Text} {r : Record}

def kept? (s : MemoryStore) : View := fun key => (s.records.get? key).map Record.slot

theorem slot?_eq : s.slot? now key =
    (s.kept? key).filter fun x => inTime false now x.deadline := by
  cases hr : s.records.get? key with
  | none => simp [slot?, kept?, hr]
  | some r =>
    rw [slot?_of_get? hr, kept?, hr, isDead_eq]
    cases hin : inTime false now r.slot.deadline <;> simp [Option.filter, hin]

/-- A record after a write was there before, or it is the one that was written. -/
theorem get?_write {value : Bytes} {ttl : Option Duration}
    (h : (s.write key value ttl now).2.records.get? k = some r) :
    s.records.get? k = some r ∨
      key = k ∧ r.value = value ∧ r.deadline.map Instant.utcUs = deadlineOf ttl now := by
  have hpurged : (s.purge now).records.get? k = some r → s.records.get? k = some r :=
    get?_of_get?_foldl_drop
  unfold write at h
  generalize s.purge now = p at h hpurged
  dsimp only at h
  split at h
  · exact .inl (hpurged h)
  all_goals
    rename_i hdeadline
    have hd := (deadline_eq_ok hdeadline).2
    rw [Table.get?_put] at h
    split at h
    · rename_i hk
      cases h
      exact .inr ⟨hk, rfl, hd⟩
    · exact .inl (hpurged h)

/-- A record after a call was there before, or the call has written it. -/
theorem get?_perform {call : StoreCall} (h : (Store.perform now call s).2.records.get? k = some r) :
    s.records.get? k = some r ∨ call.key = k ∧ call.value? = some r.value ∧
      r.deadline.map Instant.utcUs = deadlineOf call.ttl? now := by
  have hlive : ∀ {key}, (s.live key now).2.records.get? k = some r → s.records.get? k = some r :=
    fun hr => sheds_live.get? hr
  have herase : ∀ {key}, ((s.live key now).2.records.erase key).get? k = some r →
      s.records.get? k = some r := by
    intro key hr
    rw [Table.get?_erase] at hr
    split at hr
    · cases hr
    · exact hlive hr
  cases call with
  | put key value ttl =>
    simp only [Store.perform, put] at h
    split at h
    · exact .inl h
    · rcases get?_write h with hold | ⟨hk, rfl, hd⟩
      · exact .inl hold
      · exact .inr ⟨hk, rfl, hd⟩
  | get key =>
    simp only [Store.perform, get] at h
    split at h
    · exact .inl h
    · exact .inl (hlive h)
  | delete key expected =>
    simp only [Store.perform, delete] at h
    split at h
    · exact .inl h
    · split at h
      · exact .inl (herase h)
      · split at h
        · exact .inl (herase h)
        · exact .inl (hlive h)
  | update key value expected ttl =>
    simp only [Store.perform, update] at h
    split at h
    · exact .inl h
    · split at h
      · rcases get?_write h with hold | ⟨hk, rfl, hd⟩
        · exact .inl (hlive hold)
        · exact .inr ⟨hk, rfl, hd⟩
      · exact .inl (hlive h)

instance : EnduringStore MemoryStore where
  kept? := kept?
  slot?_eq _ := slot?_eq
  leaves now call _ key x hx := by
    obtain ⟨r, hr, rfl⟩ := Option.map_eq_some_iff.1 hx
    rcases get?_perform hr with hold | hwritten
    · exact .inl (Option.map_eq_some_iff.2 ⟨r, hold, rfl⟩)
    · exact .inr hwritten

end MemoryStore

/-! ## The store on a Redis server -/

namespace RedisStore

variable {s : RedisStore} {now : Instant} {key k : Text} {x : Slot}

def kept? (s : RedisStore) : View :=
  fun key => (s.keyspace.keys.get? (s.entryKey key)).bind slotOf

theorem slot?_eq_filter : s.slot? now key =
    (s.kept? key).filter fun x => inTime s.keyspace.keepsAtDeadline now x.deadline := by
  cases hrow : s.keyspace.keys.get? (s.entryKey key) with
  | none => simp [slot?_eq_none hrow, kept?, hrow]
  | some row =>
    rw [slot?_eq hrow, kept?, hrow, Option.bind_some, isLive_eq]
    cases hx : slotOf row with
    | none => simp
    | some x =>
      cases hin : inTime s.keyspace.keepsAtDeadline now row.deadline <;>
        simp [Option.filter, deadline_of_slotOf hx, hin]

theorem Valid.kept?_putScript {value : Bytes} {ttl : Option Duration} {ms : Option Nat}
    (h : s.Valid) (hms : ttlMilliseconds ttl = .ok ms)
    (hx : (s.putScript key value ms now.utcUs).2.kept? k = some x) :
    s.kept? k = some x ∨ key = k ∧ x.value = value ∧ x.deadline = deadlineOf ttl now := by
  obtain ⟨n, -, heq⟩ := h.putScript_eq key value ms now
  rw [heq, kept?, keys_withKeys, entryKey_withKeys, get?_written] at hx
  split at hx
  · rename_i hk
    cases hx
    exact .inr ⟨hk, rfl, (ttlMilliseconds_eq_ok hms now).2.1⟩
  · exact .inl hx

theorem kept?_erase
    (hx : (s.withKeys (s.keyspace.keys.erase (s.entryKey key))).kept? k = some x) :
    s.kept? k = some x := by
  rw [kept?, keys_withKeys, entryKey_withKeys, get?_erase_entryKey] at hx
  split at hx
  · cases hx
  · exact hx

theorem kept?_deleteScript {numeral : Text}
    (hx : (s.deleteScript key numeral now.utcUs).2.kept? k = some x) : s.kept? k = some x := by
  unfold deleteScript at hx
  split at hx
  · exact kept?_erase hx
  · exact hx

theorem Valid.kept?_updateScript {value : Bytes} {ttl : Option Duration} {ms : Option Nat}
    {numeral : Text} (h : s.Valid) (hms : ttlMilliseconds ttl = .ok ms)
    (hx : (s.updateScript key value ms numeral now.utcUs).2.kept? k = some x) :
    s.kept? k = some x ∨ key = k ∧ x.value = value ∧ x.deadline = deadlineOf ttl now := by
  unfold updateScript at hx
  split at hx
  · exact h.kept?_putScript hms hx
  · exact .inl hx

theorem Valid.kept?_perform {call : StoreCall} (h : s.Valid)
    (hx : (Store.perform now call s).2.kept? k = some x) :
    s.kept? k = some x ∨
      call.key = k ∧ call.value? = some x.value ∧ x.deadline = deadlineOf call.ttl? now := by
  cases call with
  | put key value ttl =>
    simp only [Store.perform, put] at hx
    cases hkey : StoreKey.check key with
    | error e => exact .inl (by simpa [hkey] using hx)
    | ok =>
      cases hms : ttlMilliseconds ttl with
      | error e => exact .inl (by simpa [hkey, hms] using hx)
      | ok ms =>
        simp only [hkey, hms, Chain.mapError_ok] at hx
        rcases h.kept?_putScript hms hx with hold | ⟨hk, rfl, hd⟩
        · exact .inl hold
        · exact .inr ⟨hk, rfl, hd⟩
  | get key =>
    simp only [Store.perform, get] at hx
    split at hx <;> exact .inl hx
  | delete key expected =>
    simp only [Store.perform, delete] at hx
    cases hkey : StoreKey.check key with
    | error e => exact .inl (by simpa [hkey] using hx)
    | ok =>
      simp only [hkey, Chain.mapError_ok] at hx
      have hscript : (s.deleteScript key ((expected.map Text.ofInt).getD []) now.utcUs).2.kept? k =
          some x → s.kept? k = some x := kept?_deleteScript
      generalize s.deleteScript key _ now.utcUs = after at hx hscript
      obtain ⟨done, t⟩ := after
      refine .inl (hscript ?_)
      cases expected <;> cases done <;> exact hx
  | update key value expected ttl =>
    simp only [Store.perform, update] at hx
    cases hkey : StoreKey.check key with
    | error e => exact .inl (by simpa [hkey] using hx)
    | ok =>
      cases hms : ttlMilliseconds ttl with
      | error e => exact .inl (by simpa [hkey, hms] using hx)
      | ok ms =>
        simp only [hkey, hms, Chain.mapError_ok] at hx
        have hscript : (s.updateScript key value ms (Text.ofInt expected) now.utcUs).2.kept? k =
            some x → _ := h.kept?_updateScript hms
        generalize s.updateScript key value ms _ now.utcUs = after at hx hscript
        obtain ⟨n, t⟩ := after
        have hx : t.kept? k = some x := by cases n <;> exact hx
        rcases hscript hx with hold | ⟨hk, rfl, hd⟩
        · exact .inl hold
        · exact .inr ⟨hk, rfl, hd⟩

instance : EnduringStore RedisStore where
  kept? := kept?
  slot?_eq _ := slot?_eq_filter
  leaves _ _ h _ _ := h.kept?_perform

end RedisStore

/-! ## A store of either kind -/

namespace AnyStore

instance : EnduringStore AnyStore where
  kept?
    | memory s => EnduringStore.kept? s
    | redis s => EnduringStore.kept? s
  slot?_eq {s now key} h := by
    cases s with
    | memory s => exact EnduringStore.slot?_eq (σ := MemoryStore) h
    | redis s => exact EnduringStore.slot?_eq (σ := RedisStore) h
  leaves {s} now call h := by
    cases s with
    | memory s => exact EnduringStore.leaves (σ := MemoryStore) now call h
    | redis s => exact EnduringStore.leaves (σ := RedisStore) now call h

end AnyStore

end SlidingCache
