import SlidingCache.Cache.Live
import SlidingCache.Log.Setup
import SlidingCache.Settings.Basic
import SlidingCache.Store.Any

/-!
# A service and its cache

A service makes caches from its settings. One of them is shared: it is made when it is first asked
for and again after it has been closed. Starting the service also sets up the log and the counters.
The log of the service holds what it says itself and what its caches say.

The settings of a service can be set to any values while it runs. They are not checked before they
are used.
-/

namespace SlidingCache

inductive ServiceFault where
  | settings (faults : List (Text × SettingFault))
  | noSetting (name : Text)
  /-- The value of a setting is none that it can have. -/
  | misfit (fault : Misfit)
  | unsupportedBackend
  | encoding (e : UnknownEncoding)
  | cache (fault : CacheFault)
  | level (fault : LevelFault)

def unsupportedBackendMessage : Text :=
  "Unsupported store_backend. Supported values: memory, redis."

def noSettingMessage (name : Text) : Text :=
  ("\"Settings\" object has no field \"" : Text) ++ name ++ ("\"" : Text)

structure Service where
  settings : Setting → Json := Settings.value {}
  now : Instant
  caches : List (LiveCache AnyStore) := []
  /-- The buckets of the caches as the settings gave them. -/
  buckets : List Json := []
  /-- The cache that was made or asked for last. -/
  current : Option Nat := none
  shared : Option Nat := none
  /-- The shared cache that was handed out last. -/
  handedOut : Option Nat := none
  setup : LogSetup := {}
  /-- Whether the counters have been made. -/
  counting : Bool := false
  log : List LogEntry := []
  /-- What the Redis server holds. -/
  server : Keyspace := { keepsAtDeadline := true }

namespace Service

instance : Inhabited Service := ⟨{ now := default }⟩

/-- Says something outside operations. -/
def say (s : Service) (line : LogLine) : Service :=
  { s with log := s.log ++ [⟨.outside, line, none⟩] }

def metricsLine (s : Service) : LogLine :=
  if (s.settings .enableMetrics).holds then .metricsReady else .metricsDisabled

/-- Makes the counters, unless there are any. -/
def makeCounters (s : Service) : Service :=
  if s.counting then s else { s.say s.metricsLine with counting := true }

/-! ## Settings -/

/-- Sets a setting. Other names are refused, but for those that begin with an underscore: these say
nothing. -/
def set (s : Service) (name : Text) (value : Json) : Except ServiceFault Service :=
  match Setting.all.find? (·.name = name) with
  | some x => .ok { s with settings := fun y => if y = x then value else s.settings y }
  | none =>
    if name.head? = some (CodePoint.ofChar '_') then .ok s else .error (.noSetting name)

/-- The text of a setting, which is going to be used in a certain way. -/
def textFor (member : Text) (value : Json) : Except ServiceFault Text :=
  (value.textWith member).mapError .misfit

/-! ## Making caches -/

def memoryNames : List Text := ["memory", "inmemory", "in_memory"]

/-- The store and the place that settings name. -/
def storeFor (s : Service) (settings : Setting → Json) :
    Except ServiceFault (AnyStore × Backend) := do
  let backend := (← textFor "lower" (settings .storeBackend)).lowerAscii
  let bucket := (settings .bucket).text
  if memoryNames.contains backend then return (.memory {}, ⟨bucket, false⟩)
  else if backend = ("redis" : Text) then
    return (.redis ⟨s.server, (settings .space).text, bucket⟩, ⟨bucket, true⟩)
  else throw .unsupportedBackend

/-- Makes a cache; it becomes the current one. -/
def create (s : Service) (settings : Setting → Json) : Except ServiceFault (Nat × Service) := do
  let (store, backend) ← s.storeFor settings
  let encoding ← textFor "lower" (settings .keyEncoder)
  let encoding ← (KeyEncoding.ofName encoding).mapError .encoding
  let keyPrefix ← textFor "rstrip" (settings .keyPrefix)
  let cache ← (Cache.make encoding keyPrefix).mapError (.cache ∘ .invalidKey)
  let i := s.caches.length
  return (i, { s with
    caches := s.caches ++ [{ cache, backend, store, now := s.now }]
    buckets := s.buckets ++ [settings .bucket]
    current := some i })

/-- Makes a cache from arguments alone or, without any, from the settings of the service. -/
def createFrom (s : Service) (arguments : Option (List (Text × Json))) :
    Except ServiceFault Service := do
  let settings ← match arguments with
    | some arguments => Settings.value <$> (Settings.load { arguments }).mapError .settings
    | none => pure s.settings
  return (← s.create settings).2

/-- Hands out the shared cache; tells whether it is the one that was handed out before. -/
def get (s : Service) : Except ServiceFault (Bool × Service) := do
  let (i, s) ← match s.shared with
    | some i => pure (i, s)
    | none =>
      let (i, s) ← s.create s.settings
      pure (i, { s.say (.cacheCreated (s.settings .bucket).text) with shared := some i })
  return (s.handedOut = some i, { s with current := some i, handedOut := some i })

/-- Sets up the log and the counters and hands out the shared cache. What was done before a fault
stays done. -/
def start (s : Service) : Except ServiceFault Bool × Service :=
  match s.setup.configure (s.settings .logJson).holds (s.settings .logLevel) (.bool true) false with
  | (.error e, _) => (.error (.level e), s)
  | (.ok _, setup) =>
    let s := { s with setup }.makeCounters
    match s.get with
    | .error e => (.error e, s)
    | .ok (same, s) => (.ok same, s.say (.cacheStarted (s.settings .storeBackend).text))

/-! ## Using the current cache -/

/-- Takes over what a cache has said and what it did on the server. -/
def absorb (s : Service) (i : Nat) (live : LiveCache AnyStore) : Service :=
  { s with
    caches := s.caches.set i { live with journal := [] }
    log := s.log ++ Remark.log (if s.counting then none else some s.metricsLine) live.journal
    counting := s.counting || live.journal.any Remark.isCounted
    server := match live.store with
      | .redis store => store.keyspace
      | .memory _ => s.server }

/-- A cache as it is now. -/
def cacheAt? (s : Service) (i : Nat) : Option (LiveCache AnyStore) :=
  (s.caches[i]?).map fun live =>
    { live with
      now := s.now
      store := match live.store with
        | .redis store => .redis { store with keyspace := s.server }
        | store => store }

def current? (s : Service) : Option (Nat × LiveCache AnyStore) := do
  let i ← s.current
  return (i, ← s.cacheAt? i)

/-- Performs a command on the current cache, if there is one. -/
def call (s : Service) (command : Command) (hasTime : Bool) :
    Option (Except CacheFault Answer × Service) := do
  let (i, live) ← s.current?
  let (answer, live) := live.call command hasTime
  return (answer.getD (.error .cancelled), s.absorb i live)

/-- Closes the current cache, if there is one. -/
def close? (s : Service) : Option Service := do
  let (i, live) ← s.current?
  return s.absorb i live.close

/-- Closes the shared cache and forgets it. -/
def closeShared (s : Service) : Service :=
  match s.shared with
  | none => s
  | some i =>
    let s := match s.cacheAt? i with
      | some live => s.absorb i live.close
      | none => s
    { s with shared := none }

/-- What is shown of a cache: its prefix and encoding, whether it holds a store, and the bucket of
that store. The bucket of a store in memory shows only while the store holds something. -/
structure Description where
  keyPrefix : Text
  encoding : KeyEncoding
  isOpen : Bool
  bucket : Option Json

def describe? (s : Service) : Option Description := do
  let (i, live) ← s.current?
  let isHeld : Bool := match live.store with
    | .memory store => (store.size live.now).1 ≠ 0
    | .redis _ => true
  return ⟨live.cache.keyPrefix, live.cache.encoding, live.isOpen,
    if live.isOpen && isHeld then s.buckets[i]? else none⟩

/-- Lets time pass, as far as the calendar goes. -/
def advance (s : Service) (time : Duration) : Except TimeFault Service :=
  return { s with now := ← s.now.add time }

end Service

end SlidingCache
