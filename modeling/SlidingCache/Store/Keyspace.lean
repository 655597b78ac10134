import SlidingCache.Table
import SlidingCache.Time.Instant

/-!
# The keyspace of a Redis server

Keys with values that are numerals or hashes of a value and a revision, each with or without a
deadline in microseconds of UTC. At its deadline a key is gone; a server that keeps it through the
deadline itself says so in `keepsAtDeadline`.
-/

namespace SlidingCache

inductive RedisValue where
  | counter (numeral : Text)
  | entry (value : Bytes) (revision : Text)
  deriving DecidableEq

structure RedisKey where
  value : RedisValue
  deadline : Option Int
  deriving DecidableEq

structure Keyspace where
  keys : Table Text RedisKey := []
  keepsAtDeadline : Bool := false

namespace Keyspace

instance : Inhabited Keyspace := ⟨{}⟩

/-- Whether a key still exists at a time. -/
def isLive (s : Keyspace) (k : RedisKey) (now : Int) : Bool :=
  match k.deadline with
  | none => true
  | some d => if s.keepsAtDeadline then now ≤ d else now < d

def get? (s : Keyspace) (key : Text) (now : Int) : Option RedisKey :=
  (s.keys.get? key).filter (s.isLive · now)

/-- The keys that exist at a time. -/
def liveKeys (s : Keyspace) (now : Int) : Table Text RedisKey :=
  s.keys.filter fun row => s.isLive row.2 now

def set (s : Keyspace) (key : Text) (value : RedisKey) : Keyspace :=
  { s with keys := s.keys.put key value }

def delete (s : Keyspace) (key : Text) : Keyspace := { s with keys := s.keys.erase key }

/-- The number in a counter; a key that does not exist counts from zero. -/
def counter (s : Keyspace) (key : Text) (now : Int) : Nat :=
  match s.get? key now with
  | some ⟨.counter t, _⟩ => (Text.natOf? t).getD 0
  | _ => 0

/-- Counts one up and keeps the deadline. -/
def increment (s : Keyspace) (key : Text) (now : Int) : Nat × Keyspace :=
  let n := s.counter key now + 1
  (n, s.set key ⟨.counter (Text.ofNat n), (s.get? key now).bind RedisKey.deadline⟩)

/-- The value and revision of a hash. -/
def entry? (s : Keyspace) (key : Text) (now : Int) : Option (Bytes × Text) :=
  match s.get? key now with
  | some ⟨.entry value revision, _⟩ => some (value, revision)
  | _ => none

end Keyspace

end SlidingCache
