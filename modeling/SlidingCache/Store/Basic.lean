import SlidingCache.Key.Rule
import SlidingCache.Time.Instant

/-!
# Revisioned stores

A store holds bytes under keys. Every write is given a revision, and a conditional write or delete
names the revision that it expects. `StoreCall` lists what can be asked of a store and
`StoreCall.Reply` what each call answers; a type with an instance of `Store` performs them at a
reading of the clock.
-/

namespace SlidingCache

/-- Numbers the writes of a bucket. -/
abbrev Revision := Int

/-- A value as the store holds it. -/
structure Held where
  value : Bytes
  revision : Revision
  deriving DecidableEq, Inhabited

inductive StoreCall where
  | put (key : Text) (value : Bytes) (ttl : Option Duration)
  | get (key : Text)
  /-- Deletes, if a revision is given only that one. -/
  | delete (key : Text) (expected : Option Revision)
  /-- Writes over the given revision. -/
  | update (key : Text) (value : Bytes) (expected : Revision) (ttl : Option Duration)
  deriving DecidableEq

namespace StoreCall

def key : StoreCall → Text
  | put key .. | get key | delete key _ | update key .. => key

/-- The revision that a call expects, if it expects one. -/
def expected? : StoreCall → Option Revision
  | put .. | get _ => none
  | delete _ expected => expected
  | update _ _ expected _ => some expected

/-- What a call answers: the new revision of a write, the value that a read found. -/
abbrev Reply : StoreCall → Type
  | put .. => Revision
  | get _ => Option Held
  | delete .. => Unit
  | update .. => Revision

end StoreCall

/-- Why a call is refused or fails. -/
inductive StoreFault where
  | invalidKey (e : InvalidKey)
  /-- The key is gone or holds another revision. -/
  | conflict (key : Text) (expected : Revision)
  | ttlNotPositive (ttl : Duration)
  | time (fault : TimeFault)
  /-- A failure on the way to the store, by its kind and message. -/
  | failure (kind : Text) (message : Text)
  deriving DecidableEq

def conflictMessage (key : Text) (expected : Revision) : Text :=
  ("Wrong last revision for " : Text) ++ key.quoted ++ (" (expected " : Text)
    ++ Text.ofInt expected ++ (")" : Text)

def StoreFault.message : StoreFault → Text
  | invalidKey e => e.message
  | conflict key expected => conflictMessage key expected
  | ttlNotPositive ttl => ("TTL must be positive, got " : Text) ++ ttl.description
  | time fault => fault.message
  | failure _ message => message

/-- A store that performs its calls at a reading of the clock. -/
class Store (σ : Type) where
  perform : Instant → (call : StoreCall) → σ → Except StoreFault call.Reply × σ

/-- The milliseconds of a time to live, rounded up; none stands for one without end. -/
def ttlMilliseconds : Option Duration → Except StoreFault (Option Nat)
  | none => .ok none
  | some ttl => if ttl.isPositive then .ok (some ttl.milliseconds) else .error (.ttlNotPositive ttl)

end SlidingCache
