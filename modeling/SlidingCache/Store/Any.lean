import SlidingCache.Store.Memory
import SlidingCache.Store.Redis

/-! # A store of either kind -/

namespace SlidingCache

inductive AnyStore where
  | memory (s : MemoryStore)
  | redis (s : RedisStore)

namespace AnyStore

instance : Inhabited AnyStore := ⟨.memory default⟩

instance : Store AnyStore where
  perform now call
    | memory s => (Store.perform now call s).map id memory
    | redis s => (Store.perform now call s).map id redis

/-- How many records are live, in memory. -/
def size (now : Instant) : AnyStore → Nat × AnyStore
  | memory s => (s.size now).map id memory
  | redis s => (0, redis s)

end AnyStore

end SlidingCache
