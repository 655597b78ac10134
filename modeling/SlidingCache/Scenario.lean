import SlidingCache.Cache.Live
import SlidingCache.Store.Any

/-!
# Scenarios

A script that plays with one cache: its caller asks for operations one after another or sets several
of them going, while rival writers, failures and a gate that holds things up act at chosen moments.
The time that the cache reads stands still except where the script moves it.

* `Hook`: what a rival does just before a store call;
* `Scenario`: the cache in use, with the tasks that are ready for a turn in the order in which they
  became ready;
* `Scenario.turn`: one turn of a task;
* `Step` and `Scenario.play`: the script.

Limits of time run on a clock of their own, which moves only when nothing else can.
-/

namespace SlidingCache

/-! ## Rivals -/

inductive StoreMethod where
  | get
  | put
  | delete
  | update
  deriving DecidableEq

def StoreCall.method : StoreCall → StoreMethod
  | .put .. => .put
  | .get _ => .get
  | .delete .. => .delete
  | .update .. => .update

/-- What happens before a store call, if no other key is named to the key of that call. -/
inductive RivalAct where
  | put (key : Option Text) (value : Bytes) (ttl : Option Duration)
  | putEntry (key : Option Text) (entry : Entry) (ttl : Option Duration)
  /-- Writes the value that is there once more. -/
  | putAgain (key : Option Text) (ttl : Option Duration)
  | delete (key : Option Text)
  | advance (time : Duration)
  /-- Waits for the gate. -/
  | wait
  /-- Lets the call fail as one that lost a race. -/
  | conflict
  /-- Lets the call fail. -/
  | fail (kind : Text) (message : Text)

/-- Acts before the call of a method that has the given number, or before all calls from it on. -/
structure Hook where
  method : StoreMethod
  nth : Nat := 1
  every : Bool := false
  acts : List RivalAct

def Hook.isDue (h : Hook) (method : StoreMethod) (count : Nat) : Bool :=
  h.method = method && (count = h.nth || h.every && h.nth ≤ count)

/-- What the acts before a call make of it. -/
inductive Verdict where
  | proceed
  | parked (acts : List RivalAct)
  | refused (fault : StoreFault)

/-! ## State -/

/-- What can have a turn. -/
inductive Task where
  | call (c : Nat)
  | attempt (a : Nat)
  /-- The callers of an attempt that has ended are told. -/
  | settled (a : Nat)
  /-- The script goes on. -/
  | script

structure Scenario where
  live : LiveCache AnyStore
  hooks : List Hook := []
  /-- The store calls so far. -/
  called : List StoreMethod := []
  gateOpen : Bool := false
  /-- Whether opening the store waits for the gate. -/
  openingGated : Bool := false
  /-- How the next attempts to open the store fail. -/
  failures : List OpenFault := []
  /-- How many attempts have set out to open the store. -/
  openings : Nat := 0
  /-- Whether the script itself has opened the store. -/
  handle : Bool := false
  hybrid : Option Bool := none
  queue : List Task := []
  /-- What waits for the gate. -/
  parked : List Task := []
  /-- The calls that have joined an attempt, in order. -/
  joiners : List Nat := []
  /-- The acts that calls held up by the gate still have before them. -/
  pending : Table Nat (List RivalAct) := []
  /-- The limits of calls, in microseconds. -/
  limits : Table Nat Nat := []
  /-- When the limits of begun calls end. -/
  timers : List (Nat × Nat) := []
  /-- How much of the time of limits has passed. -/
  elapsed : Nat := 0
  names : Table Text Nat := []

namespace Scenario

instance : Inhabited Scenario :=
  ⟨{ live := { cache := default, backend := ⟨[], false⟩, store := default, now := default } }⟩

/-! ## Turns -/

def perform (s : Scenario) (call : StoreCall) : Except StoreFault call.Reply × Scenario :=
  let (reply, store) := Store.perform s.live.now call s.live.store
  (reply, { s with live.store := store })

def advance (s : Scenario) (time : Duration) : Except TimeFault Unit × Scenario :=
  match s.live.now.add time with
  | .ok now => (.ok (), { s with live.now := now })
  | .error e => (.error e, s)

/-- One act before a call, other than waiting and failing. -/
def rival (s : Scenario) (call : StoreCall) : RivalAct → Except StoreFault Unit × Scenario
  | .put key value ttl => (s.perform (.put (key.getD call.key) value ttl)).map forget id
  | .putEntry key entry ttl => match entry.encode with
    | .ok value => (s.perform (.put (key.getD call.key) value ttl)).map forget id
    | .error _ => (.ok (), s)
  | .putAgain key ttl => match s.perform (.get (key.getD call.key)) with
    | (.ok (some held), s) => (s.perform (.put (key.getD call.key) held.value ttl)).map forget id
    | (.ok none, s) => (.ok (), s)
    | (.error e, s) => (.error e, s)
  | .delete key => s.perform (.delete (key.getD call.key) none)
  | .advance time => (s.advance time).map (·.mapError .time) id
  | .wait => (.ok (), s)
  | .conflict => (.error (.conflict call.key (call.expected?.getD (-1))), s)
  | .fail kind message => (.error (.failure kind message), s)
where
  forget {α : Type} : Except StoreFault α → Except StoreFault Unit := Except.map fun _ => ()

/-- Acts before a call, up to one that waits for the gate or fails. -/
def act (s : Scenario) (call : StoreCall) : List RivalAct → Verdict × Scenario
  | [] => (.proceed, s)
  | .wait :: rest => if s.gateOpen then s.act call rest else (.parked (.wait :: rest), s)
  | a :: rest => match s.rival call a with
    | (.ok _, s) => s.act call rest
    | (.error fault, s) => (.refused fault, s)

/-- Counts a call; gives the acts that are due before it. -/
def intercept (s : Scenario) (call : StoreCall) : List RivalAct × Scenario :=
  let s := { s with called := call.method :: s.called }
  let count := s.called.countP (· = call.method)
  ((s.hooks.filter (·.isDue call.method count)).flatMap Hook.acts, s)

def enqueue (s : Scenario) (tasks : List Task) : Scenario := { s with queue := s.queue ++ tasks }

/-- Gives a task the next turn too. -/
def goOn (s : Scenario) (task : Task) : Scenario := { s with queue := task :: s.queue }

def park (s : Scenario) (task : Task) : Scenario := { s with parked := s.parked ++ [task] }

def stageOf (s : Scenario) (c : Nat) : Option CallStage := (s.live.calls[c]?).map Call.stage

/-- Whether a call waits for an attempt. -/
def hasJoined (s : Scenario) (a c : Nat) : Bool := match s.stageOf c with
  | some (.joined a' _) => a' = a
  | _ => false

/-- Once a call has begun, its limit runs; it goes on at its next turn. -/
def begun (s : Scenario) (c : Nat) : Scenario :=
  match s.stageOf c, s.limits.get? c with
  | some (.prepared _), none => s.goOn (.call c)
  | some (.prepared _), some limit =>
    { s with timers := s.timers ++ [(s.elapsed + limit, c)] }.enqueue [.call c]
  | _, _ => s

/-- Once a call has asked for the store, it goes on with it or has joined an attempt, which may be
new. -/
def asked (s : Scenario) (c attempts : Nat) : Scenario :=
  match s.stageOf c with
  | some (.joined a _) =>
    { s with joiners := s.joiners ++ [c] }.enqueue (if attempts ≤ a then [.attempt a] else [])
  | _ => s.goOn (.call c)

/-- A turn of a call that has the store. -/
def work (s : Scenario) (c : Nat) (interrupted : Bool) (request : Request) : Scenario :=
  if interrupted then { s with live := s.live.perform c }
  else
    let (acts, s) := match s.pending.get? c with
      | some acts => (acts, { s with pending := s.pending.erase c })
      | none => s.intercept request.call
    match s.act request.call acts with
    | (.proceed, s) => { s with live := s.live.perform c }.goOn (.call c)
    | (.parked rest, s) => { s with pending := s.pending.put c rest }.park (.call c)
    | (.refused fault, s) => { s with live := s.live.refuse c fault }.goOn (.call c)

def turnCall (s : Scenario) (c : Nat) : Scenario :=
  match s.live.calls[c]? with
  | none => s
  | some call => match call.stage with
    | .created => { s with live := s.live.begin c }.begun c
    | .prepared _ => { s with live := s.live.ask c }.asked c s.live.attempts.length
    | .joined a _ =>
      let s := { s with live := s.live.wake c }
      if s.hasJoined a c then s else s.enqueue [.attempt a] |>.goOn (.call c)
    | .working _ request => s.work c call.interruption.isSome request
    | .over _ | .dropped => s

def turnAttempt (s : Scenario) (a : Nat) : Scenario :=
  match s.live.attempts[a]? with
  | some ⟨_, .created, stopping⟩ =>
    let s := { s with live := s.live.beginAttempt a }
    if stopping then s.enqueue [.settled a]
    else { s with openings := s.openings + 1 }.goOn (.attempt a)
  | some ⟨_, .opening, stopping⟩ =>
    if s.openingGated && !s.gateOpen && !stopping then s.park (.attempt a)
    -- the factory of a script gives up when it is asked to
    else if stopping then { s with live := s.live.endAttempt a .cancelled }.enqueue [.settled a]
    else
      { s with
        live := s.live.endAttempt a ((s.failures.head?).elim (.opened a) .failed)
        failures := s.failures.tail }.enqueue [.settled a]
  | _ => s

/-- Lets go of an attempt and wakes its callers. -/
def settle (s : Scenario) (a : Nat) : Scenario :=
  let (told, others) := s.joiners.partition (s.hasJoined a)
  { s with live := s.live.release a, joiners := others }.enqueue (told.map .call)

def turn (s : Scenario) : Task → Scenario
  | .call c => s.turnCall c
  | .attempt a => s.turnAttempt a
  | .settled a => s.settle a
  | .script => s

/-- Lets the earliest limits end, all those of one moment together; none if no limit runs. -/
def fire? (s : Scenario) : Option Scenario :=
  let running := s.timers.filter fun t => !(s.live.calls[t.2]?).any Call.isOver
  match running.map Prod.fst |>.min? with
  | none => none
  | some first =>
    let (due, rest) := running.partition (·.1 = first)
    some <| { s with
      elapsed := first
      timers := rest
      live := due.foldl (fun live t => live.interrupt t.2 .timeout) s.live
      queue := s.queue ++ due.map fun t => .call t.2 }

/-- Gives turns until the condition holds or nothing is ready. Limits end only if the script
`waits`. -/
def drain (waits : Bool) (enough : Scenario → Bool) : Nat → Scenario → Scenario
  | 0, s => s
  | fuel + 1, s =>
    if enough s then s
    else match s.queue with
      | task :: rest => drain waits enough fuel ({ s with queue := rest }.turn task)
      | [] => match if waits then s.fire? else none with
        | some s => drain waits enough fuel s
        | none => s

/-- More turns than there can be: a call takes at most five for its store calls and a few more to
begin, to wait and to be woken, and starts at most one attempt. -/
def turns (s : Scenario) : Nat :=
  64 * (s.live.calls.length + s.live.attempts.length + s.queue.length + 1)

def isOver (s : Scenario) (c : Nat) : Bool := (s.live.calls[c]?).any Call.isOver

/-- Lets everything happen until the calls are over. -/
def await (s : Scenario) (calls : List Nat) : Scenario :=
  s.drain true (fun s => calls.all s.isOver) s.turns

/-- Lets the script wait for its turn behind all that is ready. -/
def queueUp (s : Scenario) : Scenario :=
  let s := (s.enqueue [.script]).drain false (fun s => s.queue.head? matches some .script) s.turns
  { s with queue := s.queue.tail }

/-! ## The script -/

/-- A command with its limit in microseconds. -/
structure Ask where
  command : Command
  limit : Option Nat := none

inductive Step where
  | advance (time : Duration)
  /-- A store call of the script itself. -/
  | store (call : StoreCall)
  | putEntry (key : Text) (entry : Entry) (ttl : Option Duration)
  /-- A read with renewal without the cache. -/
  | renew (key : Text) (withPayload : Bool)
  | size
  | pass
  | ask (a : Ask)
  /-- A blocking call where it would wait for itself. -/
  | blocking
  | close
  | storeKey (key : Text)
  | keyPrefix
  | hybrid (value : Option Bool)
  | start (name : Text) (a : Ask)
  | settle
  | join (name : Text)
  | cancel (name : Text)
  | release
  | gather (asks : List Ask)

/-- What a step brings. -/
inductive Report where
  | nothing
  | fault (fault : CacheFault)
  | flag (b : Bool)
  | number (n : Int)
  | held (found : Option Held)
  | text (t : Text)
  | answer (a : Except CacheFault Answer)
  /-- The answer of a task; none if it was cancelled before it began. -/
  | task (a : Option (Except CacheFault Answer))
  | answers (l : List (Option (Except CacheFault Answer)))
  | names (l : List Text)

/-- The answer of a call that is over; none if it never began. -/
def answerOf (s : Scenario) (c : Nat) : Option (Except CacheFault Answer) := s.live.answer? c

/-- Sets a call going, at the end of the queue or first. -/
def launch (s : Scenario) (a : Ask) : Nat × Scenario :=
  let c := s.live.calls.length
  (c, { s with
    live := s.live.start a.command (a.limit != some 0)
    limits := match a.limit with
      | some limit => s.limits.put c limit
      | none => s.limits })

/-- Sets calls going one after another. -/
def launchAll (s : Scenario) : List Ask → List Nat × Scenario
  | [] => ([], s)
  | a :: rest =>
    let (c, s) := s.launch a
    let (cs, s) := ({ s with queue := s.queue ++ [.call c] } : Scenario).launchAll rest
    (c :: cs, s)

/-- Opens the store for the script itself, unless it has been opened before. -/
def grasp (s : Scenario) : Scenario :=
  let opened := s.handle || s.live.attempts.any Attempt.hasOpened
  { s with
    handle := true
    live := if s.live.backend.connects && !opened then
        s.live.say .outside [.say (.connected s.live.backend.bucket) none]
      else s.live }

/-- A store call of the script; the gate does not hold it up. The store in memory, once it has
checked the key, first lets all that is ready have a turn. -/
def direct (s : Scenario) (call : StoreCall) : Except StoreFault call.Reply × Scenario :=
  let (acts, s) := s.grasp.intercept call
  match s.act call acts with
  | (.refused fault, s) => (.error fault, s)
  | (_, s) =>
    let queues := !s.live.backend.connects && (StoreKey.check call.key).isOk
    (if queues then s.queueUp else s).perform call

def renew (s : Scenario) (key : Text) (stage : ReadStage) :
    Except CacheFault (Option Bytes) × Scenario :=
  let (reply, s) := s.direct (stage.call key)
  let s := { s with live := s.live.say .outside (stage.resume key s.live.now reply).notices }
  match _h : (stage.resume key s.live.now reply).next with
  | .inr result => (result, s)
  | .inl next => s.renew key next
termination_by stage.rank
decreasing_by exact ReadStage.rank_resume _h

/-- Reports the reply to a call. -/
def reportOf : (call : StoreCall) → Except StoreFault call.Reply → Report
  | _, .error e => .fault (.store e)
  | .put .., .ok n => .number n
  | .update .., .ok n => .number n
  | .get _, .ok found => .held found
  | .delete .., .ok _ => .nothing

def play (s : Scenario) : Step → Report × Scenario
  | .advance time => match s.advance time with
    | (.ok _, s) => (.nothing, s)
    | (.error e, s) => (.fault (.time e), s)
  | .store call => (s.direct call).map (reportOf call) id
  | .putEntry key entry ttl => match entry.encode with
    | .ok value => (s.direct (.put key value ttl)).map (reportOf (.put key value ttl)) id
    | .error e => (.fault (.encode e), s)
  | .renew key withPayload =>
    let (result, s) := s.renew key .fetching
    (match result with
      | .ok payload => .answer (.ok (.payload (if withPayload then payload else none)))
      | .error e => .fault e, s)
  | .size =>
    let (n, store) := s.live.store.size s.live.now
    (.number n, { s with live.store := store })
  | .pass => (.nothing, s)
  | .ask a =>
    let (c, s) := s.launch a
    let s := (s.goOn (.call c)).await [c]
    (.answer ((s.answerOf c).getD (.error .cancelled)), s)
  | .blocking => (.fault .wouldBlock, s)
  | .close =>
    let stopped := (s.live.current?.map Task.attempt).toList
    (.nothing, { s with live := s.live.close }.enqueue stopped)
  | .storeKey key => match s.live.cache.storeKey key with
    | .ok key => (.text key, s)
    | .error e => (.fault (.invalidKey e), s)
  | .keyPrefix => (.text s.live.cache.keyPrefix, s)
  | .hybrid value =>
    let hybrid := s.hybrid.map fun old => value.getD old
    (.flag (hybrid.getD false), { s with hybrid })
  | .start name a =>
    let (c, s) := s.launch a
    (.nothing, { s with names := s.names.put name c }.enqueue [.call c])
  | .settle =>
    let s := s.drain false (fun _ => false) s.turns
    (.names (((s.names.filter fun row => s.isOver row.2).map Prod.fst).mergeSort Text.le), s)
  | .join name => match s.names.get? name with
    | none => (.nothing, s)
    | some c =>
      let s := s.await [c]
      (.task (s.answerOf c), s)
  | .cancel name => match s.names.get? name with
    | none => (.flag false, s)
    | some c =>
      if s.isOver c then (.flag false, s)
      else (.flag true, { s with live := s.live.interrupt c .cancel }.enqueue [.call c])
  | .release => (.nothing, { s with gateOpen := true, parked := [] }.enqueue s.parked)
  | .gather asks =>
    let (calls, s) := s.launchAll asks
    let s := s.await calls
    (.answers (calls.map s.answerOf), s)

end Scenario

end SlidingCache
