import SlidingCache.Store.Basic
import SlidingCache.Store.Keyspace

/-!
# The store on a Redis server

A bucket of a namespace uses these keys, the parts joined by colons:

* `namespace:bucket:rev`, the counter of its revisions;
* `namespace:bucket:k:key` for every store key, a hash of value and revision.

Each call is one script, performed by the server as a whole. Revisions are compared as numerals, and
deadlines count whole milliseconds.
-/

namespace SlidingCache

structure RedisStore where
  keyspace : Keyspace := {}
  space : Text
  bucket : Text

namespace RedisStore

def defaultSpace : Text := "revcache"

def base (s : RedisStore) : Text := s.space ++ (":" : Text) ++ s.bucket

def counterKey (s : RedisStore) : Text := s.base ++ (":rev" : Text)

def entryKey (s : RedisStore) (key : Text) : Text := s.base ++ (":k:" : Text) ++ key

/-! ## Scripts -/

/-- Writes the next revision; the hash loses its old deadline or gets a new one. -/
def putScript (s : RedisStore) (key : Text) (value : Bytes) (ms : Option Nat) (now : Int) :
    Revision × RedisStore :=
  let (n, space) := s.keyspace.increment s.counterKey now
  let deadline := ms.map fun ms => now + ms * 1000
  (n, { s with keyspace := space.set (s.entryKey key) ⟨.entry value (Text.ofNat n), deadline⟩ })

/-- Writes over the revision of a numeral; none if the hash has another one. -/
def updateScript (s : RedisStore) (key : Text) (value : Bytes) (ms : Option Nat) (expected : Text)
    (now : Int) : Option Revision × RedisStore :=
  if (s.keyspace.entry? (s.entryKey key) now).map Prod.snd = some expected then
    let (n, s) := s.putScript key value ms now
    (some n, s)
  else (none, s)

/-- Deletes the hash, for a numeral only with that revision; tells whether that was so. -/
def deleteScript (s : RedisStore) (key : Text) (expected : Text) (now : Int) : Bool × RedisStore :=
  if expected.isEmpty ∨ (s.keyspace.entry? (s.entryKey key) now).map Prod.snd = some expected then
    (true, { s with keyspace := s.keyspace.delete (s.entryKey key) })
  else (false, s)

/-- The number of a revision's numeral. -/
def revisionOf (t : Text) : Revision := ((Text.natOf? t).getD 0 : Nat)

/-! ## Calls -/

def put (s : RedisStore) (key : Text) (value : Bytes) (ttl : Option Duration) (now : Int) :
    Except StoreFault Revision × RedisStore :=
  match (StoreKey.check key).mapError .invalidKey, ttlMilliseconds ttl with
  | .error e, _ | .ok _, .error e => (.error e, s)
  | .ok _, .ok ms =>
    let (n, s) := s.putScript key value ms now
    (.ok n, s)

def get (s : RedisStore) (key : Text) (now : Int) :
    Except StoreFault (Option Held) × RedisStore :=
  match (StoreKey.check key).mapError .invalidKey with
  | .error e => (.error e, s)
  | .ok _ =>
    (.ok ((s.keyspace.entry? (s.entryKey key) now).map fun (v, r) => ⟨v, revisionOf r⟩), s)

def delete (s : RedisStore) (key : Text) (expected : Option Revision) (now : Int) :
    Except StoreFault Unit × RedisStore :=
  match (StoreKey.check key).mapError .invalidKey with
  | .error e => (.error e, s)
  | .ok _ =>
    let (done, s) := s.deleteScript key ((expected.map Text.ofInt).getD []) now
    match expected, done with
    | some n, false => (.error (.conflict key n), s)
    | _, _ => (.ok (), s)

def update (s : RedisStore) (key : Text) (value : Bytes) (expected : Revision)
    (ttl : Option Duration) (now : Int) : Except StoreFault Revision × RedisStore :=
  match (StoreKey.check key).mapError .invalidKey, ttlMilliseconds ttl with
  | .error e, _ | .ok _, .error e => (.error e, s)
  | .ok _, .ok ms =>
    match s.updateScript key value ms (Text.ofInt expected) now with
    | (some n, s) => (.ok n, s)
    | (none, s) => (.error (.conflict key expected), s)

instance : Store RedisStore where
  perform now call s := match call with
    | .put key value ttl => s.put key value ttl now.utcUs
    | .get key => s.get key now.utcUs
    | .delete key expected => s.delete key expected now.utcUs
    | .update key value expected ttl => s.update key value expected ttl now.utcUs

end RedisStore

end SlidingCache
