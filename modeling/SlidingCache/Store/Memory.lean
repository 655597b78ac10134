import SlidingCache.Store.Basic
import SlidingCache.Table

/-!
# The store in memory

Records with a revision and a deadline. A record whose deadline has come is dead: a read of its key
drops it, and every write drops all of them, in the order of the deadlines that writes have queued.
A queued deadline counts only while its record still has the revision it was queued with.
-/

namespace SlidingCache

structure Record where
  value : Bytes
  revision : Revision
  deadline : Option Instant
  deriving DecidableEq

/-- A deadline in the queue: when, and the write that it belongs to. -/
structure Due where
  deadline : Instant
  revision : Revision
  key : Text
  deriving DecidableEq

structure MemoryStore where
  records : Table Text Record := []
  /-- The revision of the last write. -/
  revision : Revision := 0
  /-- The deadlines of all writes that had one, earliest first. -/
  queue : List Due := []

namespace MemoryStore

instance : Inhabited MemoryStore := ⟨{}⟩

/-- Whether a deadline has come. -/
def hasCome (deadline now : Instant) : Bool := deadline.utcUs ≤ now.utcUs

def isDead (r : Record) (now : Instant) : Bool :=
  match r.deadline with
  | some d => hasCome d now
  | none => false

/-! ## Dropping -/

/-- Drops the record of a queued deadline, unless a later write took its place. -/
def drop (records : Table Text Record) (due : Due) : Table Text Record :=
  match records.get? due.key with
  | some r => if r.revision = due.revision then records.erase due.key else records
  | none => records

/-- Drops the records of all deadlines that have come. -/
def purge (s : MemoryStore) (now : Instant) : MemoryStore :=
  let come := s.queue.takeWhile fun d => hasCome d.deadline now
  { s with records := come.foldl drop s.records, queue := s.queue.drop come.length }

/-- Puts a deadline behind all that are not later. -/
def enqueue (due : Due) : List Due → List Due
  | [] => [due]
  | d :: r =>
    if due.deadline.utcUs < d.deadline.utcUs then due :: d :: r else d :: enqueue due r

/-- The live record of a key; a dead one is dropped. -/
def live (s : MemoryStore) (key : Text) (now : Instant) : Option Record × MemoryStore :=
  match s.records.get? key with
  | none => (none, s)
  | some r =>
    if isDead r now then (none, { s with records := s.records.erase key }) else (some r, s)

/-! ## Writing -/

/-- When a time to live that begins now ends. -/
def deadline (ttl : Option Duration) (now : Instant) : Except StoreFault (Option Instant) := do
  match ← ttlMilliseconds ttl with
  | none => return none
  | some 0 => return none
  | some ms =>
    let d ← (Duration.ofMilliseconds ms).mapError .time
    return some (← (now.add d).mapError .time)

/-- Writes a record with the next revision. The revision is used up even if the deadline cannot be
represented. -/
def write (s : MemoryStore) (key : Text) (value : Bytes) (ttl : Option Duration) (now : Instant) :
    Except StoreFault Revision × MemoryStore :=
  let s := s.purge now
  let s := { s with revision := s.revision + 1 }
  match deadline ttl now with
  | .error e => (.error e, s)
  | .ok none => (.ok s.revision, { s with records := s.records.put key ⟨value, s.revision, none⟩ })
  | .ok (some d) =>
    (.ok s.revision,
      { s with
        records := s.records.put key ⟨value, s.revision, some d⟩
        queue := enqueue ⟨d, s.revision, key⟩ s.queue })

/-! ## Calls -/

def put (s : MemoryStore) (key : Text) (value : Bytes) (ttl : Option Duration) (now : Instant) :
    Except StoreFault Revision × MemoryStore :=
  match StoreKey.check key with
  | .error e => (.error (.invalidKey e), s)
  | .ok _ => s.write key value ttl now

def get (s : MemoryStore) (key : Text) (now : Instant) :
    Except StoreFault (Option Held) × MemoryStore :=
  match StoreKey.check key with
  | .error e => (.error (.invalidKey e), s)
  | .ok _ =>
    let (r, s) := s.live key now
    (.ok (r.map fun r => ⟨r.value, r.revision⟩), s)

def delete (s : MemoryStore) (key : Text) (expected : Option Revision) (now : Instant) :
    Except StoreFault Unit × MemoryStore :=
  match StoreKey.check key with
  | .error e => (.error (.invalidKey e), s)
  | .ok _ =>
    let (r, s) := s.live key now
    match expected with
    | none => (.ok (), { s with records := s.records.erase key })
    | some n =>
      if r.map Record.revision = some n then (.ok (), { s with records := s.records.erase key })
      else (.error (.conflict key n), s)

def update (s : MemoryStore) (key : Text) (value : Bytes) (expected : Revision)
    (ttl : Option Duration) (now : Instant) : Except StoreFault Revision × MemoryStore :=
  match StoreKey.check key with
  | .error e => (.error (.invalidKey e), s)
  | .ok _ =>
    let (r, s) := s.live key now
    if r.map Record.revision = some expected then s.write key value ttl now
    else (.error (.conflict key expected), s)

/-- How many records are live; the dead ones are dropped. -/
def size (s : MemoryStore) (now : Instant) : Nat × MemoryStore :=
  let s := s.purge now
  (s.records.length, s)

instance : Store MemoryStore where
  perform now call s := match call with
    | .put key value ttl => s.put key value ttl now
    | .get key => s.get key now
    | .delete key expected => s.delete key expected now
    | .update key value expected ttl => s.update key value expected ttl now

end MemoryStore

end SlidingCache
