import SlidingCache.Entry
import SlidingCache.Expiration
import SlidingCache.Store.Basic

/-!
# What is counted and said

The remarks that the cache makes while it works: what the counters count (`Notice`) and what the log
says (`LogLine`), each with the operation and key in whose course it was made.
-/

namespace SlidingCache

/-- The operations that are counted; a lenient read counts as `get`. -/
inductive Operation where
  | get
  | set
  | remove
  | refresh
  deriving DecidableEq

def Operation.name : Operation → Text
  | get => "get"
  | set => "set"
  | remove => "remove"
  | refresh => "refresh"

/-- How the renewal of a sliding window went. -/
inductive RenewalLabel where
  | renewed
  | skipped
  /-- Given up for another writer. -/
  | conceded
  /-- One conditional write was refused. -/
  | conflict
  deriving DecidableEq

def RenewalLabel.name : RenewalLabel → Text
  | renewed => "renewed"
  | skipped => "skipped"
  | conceded => "conceded"
  | conflict => "conflict"

/-- A store that could not be opened, by the kind of failure and its message if it has one. -/
structure OpenFault where
  kind : Text
  message : Option Text
  deriving DecidableEq

/-- Why an operation of the cache fails. -/
inductive CacheFault where
  | invalidKey (e : InvalidKey)
  | plan (fault : PlanFault)
  | encode (fault : EncodeFault)
  | corrupt (e : CorruptEntry)
  | time (fault : TimeFault)
  | store (fault : StoreFault)
  | unopened (fault : OpenFault)
  | timedOut
  | cancelled
  /-- A blocking call from the thread that would have to serve it. -/
  | wouldBlock

/-- The words of a fault; a store that cannot be opened need not give any. -/
def CacheFault.message : CacheFault → Option Text
  | invalidKey e => e.message
  | plan (.option fault) => fault.argument.message
  | plan (.time fault) => fault.message
  | encode fault => fault.message
  | corrupt e => e.message
  | time fault => fault.message
  | store fault => fault.message
  | unopened fault => fault.message
  | timedOut | cancelled => some []
  | wouldBlock =>
    some "Blocking cache calls cannot run inside an event loop; await the async method"

inductive Severity where
  | debug
  | info
  | warning
  | error
  deriving DecidableEq

def Severity.name : Severity → Text
  | debug => "DEBUG"
  | info => "INFO"
  | warning => "WARNING"
  | error => "ERROR"

/-- Who speaks in the log. -/
inductive Speaker where
  | cache
  | renewal
  | redis
  | metrics
  | service
  deriving DecidableEq

def Speaker.name : Speaker → Text
  | cache => "revcache.cache"
  | renewal => "revcache.renewal"
  | redis => "revcache.store.redis"
  | metrics => "revcache.observability.metrics"
  | service => "revcache.runtime"

inductive LogLine where
  | openFailed
  | storeReady (bucket : Text)
  | connected (bucket : Text)
  | operationFailed (operation : Operation)
  | raceLost (key : Text) (attempt : Nat)
  | expiredDeleted (key : Text)
  | expiredChanged (key : Text)
  | metricsReady
  | metricsDisabled
  | cacheCreated (bucket : Text)
  | cacheStarted (backend : Text)
  deriving DecidableEq

namespace LogLine

def severity : LogLine → Severity
  | openFailed | operationFailed _ => .error
  | raceLost .. | expiredDeleted _ | expiredChanged _ => .debug
  | _ => .info

def speaker : LogLine → Speaker
  | openFailed | storeReady _ | operationFailed _ => .cache
  | connected _ => .redis
  | raceLost .. | expiredDeleted _ | expiredChanged _ => .renewal
  | metricsReady | metricsDisabled => .metrics
  | cacheCreated _ | cacheStarted _ => .service

def message : LogLine → Text
  | openFailed => "Failed to open cache store"
  | storeReady bucket => ("Cache store ready for bucket " : Text) ++ bucket
  | connected bucket => ("Connected to Redis for bucket " : Text) ++ bucket
  | operationFailed operation => ("Exception in distributed cache " : Text) ++ operation.name
  | raceLost key attempt =>
    ("Sliding renewal of " : Text) ++ key ++ (" lost a revision race (attempt " : Text)
      ++ Text.ofNat attempt ++ (")" : Text)
  | expiredDeleted key => ("Deleted expired entry " : Text) ++ key
  | expiredChanged key =>
    ("Expired entry " : Text) ++ key ++ (" changed before delete" : Text)
  | metricsReady => "Prometheus metrics initialized"
  | metricsDisabled => "Metrics are disabled"
  | cacheCreated bucket => ("Distributed cache created for bucket " : Text) ++ bucket
  | cacheStarted backend => ("Distributed cache started (" : Text) ++ backend ++ (")" : Text)

end LogLine

inductive Notice where
  | hit
  | miss
  | expired
  | renewal (label : RenewalLabel)
  | operation (operation : Operation)
  | say (line : LogLine) (fault : Option CacheFault)

/-- The operation and store key in whose course something is said; both empty outside operations. -/
structure LogContext (α : Type) where
  operation : α
  cacheKey : α
  deriving DecidableEq, Inhabited

def LogContext.outside : LogContext Text := ⟨[], []⟩

structure Remark where
  context : LogContext Text
  notice : Notice

/-- A line of the log, with the fault that it reports. -/
structure LogEntry where
  context : LogContext Text
  line : LogLine
  fault : Option CacheFault := none

/-- Whether a remark is counted, and not only said. -/
def Remark.isCounted (r : Remark) : Bool := match r.notice with
  | .say .. => false
  | _ => true

/-- The log of a journal. What is counted first makes the counters, which are `announced` then. -/
def Remark.log (announced : Option LogLine) : List Remark → List LogEntry
  | [] => []
  | ⟨context, .say line fault⟩ :: rest => ⟨context, line, fault⟩ :: Remark.log announced rest
  | ⟨context, _⟩ :: rest =>
    (announced.map fun line => ⟨context, line, none⟩).toList ++ Remark.log none rest

end SlidingCache
