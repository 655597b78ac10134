import SlidingCache.Proofs.Store.Memory
import SlidingCache.Proofs.Store.Redis
import SlidingCache.Store.Any

/-! # A store of either kind keeps its promises -/

namespace SlidingCache.AnyStore

open LawfulStore

theorem perform_memory {now : Instant} {call : StoreCall} {s : MemoryStore} :
    Store.perform now call (memory s) =
      ((Store.perform now call s).1, memory (Store.perform now call s).2) := rfl

theorem perform_redis {now : Instant} {call : StoreCall} {s : RedisStore} :
    Store.perform now call (redis s) =
      ((Store.perform now call s).1, redis (Store.perform now call s).2) := rfl

instance : LawfulStore AnyStore where
  Valid
    | memory s => LawfulStore.Valid s
    | redis s => LawfulStore.Valid s
  lastRevision
    | memory s => LawfulStore.lastRevision s
    | redis s => LawfulStore.lastRevision s
  slot?
    | memory s => LawfulStore.slot? s
    | redis s => LawfulStore.slot? s
  revision_le {s now key x} h hx := by
    cases s with
    | memory s => exact revision_le (σ := MemoryStore) h hx
    | redis s => exact revision_le (σ := RedisStore) h hx
  later {s now now'} key h hle := by
    cases s with
    | memory s => exact later (σ := MemoryStore) key h hle
    | redis s => exact later (σ := RedisStore) key h hle
  valid_perform {s now call} h := by
    cases s with
    | memory s => rw [perform_memory]; exact valid_perform (σ := MemoryStore) h
    | redis s => rw [perform_redis]; exact valid_perform (σ := RedisStore) h
  performed {s} now call h := by
    cases s with
    | memory s => rw [perform_memory]; exact performed (σ := MemoryStore) now call h
    | redis s => rw [perform_redis]; exact performed (σ := RedisStore) now call h

end SlidingCache.AnyStore
