import SlidingCache.Cache.Request

/-!
# A cache in use

Any number of callers use one cache at the same time. The store is opened when it is first needed,
and callers who come while it is being opened share the attempt. `LiveCache` is the state that they
share, and `Event` lists what may happen to it, one event for every stretch of time in which nobody
else has a turn:

* a call begins, asks for the store, wakes with the outcome of the attempt that it waited for,
  performs one store call, or is refused it by a failure on the way;
* a call is interrupted: what it was about to do is not done, and its next turn is its last;
* an attempt begins, ends, and is let go of;
* the cache is closed, time passes, or someone else uses the store.

An event that cannot happen changes nothing.
-/

namespace SlidingCache

/-! ## Attempts and calls -/

/-- What the factory hands out for an open store. Every handle leads to the same store, and the
number tells it from another one. -/
abbrev Handle := Nat

/-- How an attempt to open the store ends. -/
inductive Outcome where
  | opened (handle : Handle)
  | failed (fault : OpenFault)
  | cancelled
  deriving DecidableEq

def Outcome.handle? : Outcome → Option Handle
  | opened handle => some handle
  | failed _ | cancelled => none

inductive AttemptStage where
  | created
  | opening
  | ended (outcome : Outcome)
  deriving DecidableEq

/-- An attempt to open the store, in the log context of the call that started it. -/
structure Attempt where
  context : LogContext Text
  stage : AttemptStage := .created
  /-- Whether it was asked to stop. How it ends is up to the factory all the same, once that was
  called. -/
  stopping : Bool := false
  deriving DecidableEq

namespace Attempt

def hasEnded (a : Attempt) : Bool := match a.stage with
  | .ended _ => true
  | _ => false

/-- Whether the attempt has opened the store. -/
def hasOpened (a : Attempt) : Bool := match a.stage with
  | .ended (.opened _) => true
  | _ => false

/-- Whether a caller may wait for the attempt. -/
def canBeJoined (a : Attempt) : Bool := !a.hasEnded && !a.stopping

end Attempt

/-- Why a call is made to give up. -/
inductive Interruption where
  | cancel
  | timeout
  deriving DecidableEq

def Interruption.fault : Interruption → CacheFault
  | cancel => .cancelled
  | timeout => .timedOut

inductive CallStage where
  | created
  /-- Checked, with its work to be done. -/
  | prepared (request : Request)
  /-- Waits for an attempt to open the store. -/
  | joined (attempt : Nat) (request : Request)
  /-- Has a handle to the store. -/
  | working (handle : Handle) (request : Request)
  | over (result : Except CacheFault Answer)
  /-- Cancelled before it began. -/
  | dropped

structure Call where
  command : Command
  /-- False if the time that the caller gives is nothing. -/
  hasTime : Bool := true
  stage : CallStage := .created
  interruption : Option Interruption := none

/-- Whether nothing is left to happen to a call. -/
def Call.isOver (c : Call) : Bool := match c.stage with
  | .over _ | .dropped => true
  | _ => false

/-- Where the store is: its bucket, and whether opening it connects to a server. -/
structure Backend where
  bucket : Text
  connects : Bool := false

/-- What opening the store says. -/
def Backend.openingLines (b : Backend) : List LogLine :=
  (if b.connects then [.connected b.bucket] else []) ++ [.storeReady b.bucket]

structure LiveCache (σ : Type) where
  cache : Cache := {}
  backend : Backend
  store : σ
  now : Instant
  /-- The handle that the cache holds. -/
  handle : Option Handle := none
  /-- The attempt that callers may join, unless it has ended or is stopping. -/
  opening : Option Nat := none
  /-- How many calls wait for an attempt, whichever it is. -/
  waiting : Nat := 0
  attempts : List Attempt := []
  calls : List Call := []
  journal : List Remark := []

namespace LiveCache

variable {σ : Type}

def isOpen (s : LiveCache σ) : Bool := s.handle.isSome

def say (s : LiveCache σ) (context : LogContext Text) (notices : List Notice) : LiveCache σ :=
  { s with journal := s.journal ++ notices.map fun n => ⟨context, n⟩ }

def moveCall (s : LiveCache σ) (c : Nat) (stage : CallStage) : LiveCache σ :=
  { s with calls := s.calls.modify c fun call => { call with stage } }

def moveAttempt (s : LiveCache σ) (a : Nat) (stage : AttemptStage) : LiveCache σ :=
  { s with attempts := s.attempts.modify a fun attempt => { attempt with stage } }

/-- Asks an attempt to stop, unless it has ended. -/
def stop (s : LiveCache σ) (a : Nat) : LiveCache σ :=
  { s with
    attempts := s.attempts.modify a fun attempt =>
      if attempt.hasEnded then attempt else { attempt with stopping := true } }

/-! ## Calls -/

/-- A new call. -/
def start (s : LiveCache σ) (command : Command) (hasTime : Bool) : LiveCache σ :=
  { s with calls := s.calls ++ [{ command, hasTime }] }

/-- What is said at the end of an operation. A cancelled one is counted but not complained of. -/
def closingNotices (operation : Operation) : Except CacheFault (Option Bytes) → List Notice
  | .ok _ | .error .cancelled => [.operation operation]
  | .error fault => [.say (.operationFailed operation) (some fault), .operation operation]

def finish (s : LiveCache σ) (c : Nat) (command : Command) (request : Request)
    (result : Except CacheFault (Option Bytes)) : LiveCache σ :=
  (s.say request.context (closingNotices request.operation result)).moveCall c
    (.over (command.answer result))

/-- Checks the command. A fault ends the call before anything else is done. -/
def begin (s : LiveCache σ) (c : Nat) : LiveCache σ :=
  match s.calls[c]? with
  | some ⟨_, _, .created, some _⟩ => s.moveCall c .dropped
  | some ⟨command, hasTime, .created, none⟩ =>
    match command.request s.cache s.now with
    | .error fault => s.moveCall c (.over (command.answer (.error fault)))
    | .ok request =>
      if hasTime then s.moveCall c (.prepared request)
      else s.finish c command request (.error .timedOut)
  | _ => s

/-- The attempt that is under way, if it may be joined. -/
def current? (s : LiveCache σ) : Option Nat :=
  s.opening.filter fun a => (s.attempts[a]?).any Attempt.canBeJoined

/-- The attempt under way, or else a new one. -/
def attemptFor (s : LiveCache σ) (context : LogContext Text) : Nat × LiveCache σ :=
  match s.current? with
  | some a => (a, s)
  | none =>
    (s.attempts.length,
      { s with
        attempts := s.attempts ++ [{ context }]
        opening := some s.attempts.length })

/-- Takes the handle, or joins the attempt to open the store. -/
def ask (s : LiveCache σ) (c : Nat) : LiveCache σ :=
  match s.calls[c]? with
  | some ⟨command, _, .prepared request, some i⟩ => s.finish c command request (.error i.fault)
  | some ⟨_, _, .prepared request, none⟩ =>
    match s.handle with
    | some handle => s.moveCall c (.working handle request)
    | none =>
      let (a, s) := s.attemptFor request.context
      { s with waiting := s.waiting + 1 }.moveCall c (.joined a request)
  | _ => s

/-- Leaves an attempt before it has ended. The only caller still waiting asks it to stop. -/
def leave (s : LiveCache σ) (a : Nat) : LiveCache σ :=
  { (if s.waiting = 1 then s.stop a else s) with waiting := s.waiting - 1 }

/-- Takes the outcome of the attempt that a call waits for, or gives up waiting. -/
def wake (s : LiveCache σ) (c : Nat) : LiveCache σ :=
  match s.calls[c]? with
  | some ⟨command, _, .joined a request, some i⟩ =>
    (s.leave a).finish c command request (.error i.fault)
  | some ⟨command, _, .joined a request, none⟩ =>
    match (s.attempts[a]?).map Attempt.stage with
    | some (.ended outcome) =>
      let s := { s with waiting := s.waiting - 1 }
      match outcome with
      | .opened handle => s.moveCall c (.working handle request)
      | .failed fault => s.finish c command request (.error (.unopened fault))
      | .cancelled => s.finish c command request (.error .cancelled)
    | _ => s
  | _ => s

/-- Hands the answer of the store to a working call. -/
def deliver (s : LiveCache σ) (c : Nat) (command : Command) (handle : Handle) (request : Request)
    (reply : Except StoreFault request.call.Reply) : LiveCache σ :=
  let turn := request.work.resume request.key s.now reply
  let s := s.say request.context turn.notices
  match turn.next with
  | .inl work => s.moveCall c (.working handle { request with work })
  | .inr result => s.finish c command request result

/-- Performs the store call that a call waits for. -/
def perform [Store σ] (s : LiveCache σ) (c : Nat) : LiveCache σ :=
  match s.calls[c]? with
  | some ⟨command, _, .working _ request, some i⟩ => s.finish c command request (.error i.fault)
  | some ⟨command, _, .working handle request, none⟩ =>
    let (reply, store) := Store.perform s.now request.call s.store
    { s with store }.deliver c command handle request reply
  | _ => s

/-- Lets the store call that a call waits for fail without being performed. -/
def refuse (s : LiveCache σ) (c : Nat) (fault : StoreFault) : LiveCache σ :=
  match s.calls[c]? with
  | some ⟨command, _, .working _ request, some i⟩ => s.finish c command request (.error i.fault)
  | some ⟨command, _, .working handle request, none⟩ =>
    s.deliver c command handle request (.error fault)
  | _ => s

/-- Interrupts a call that is not over. Cancelling goes before running out of time, which cannot
happen before a call begins. -/
def interrupt (s : LiveCache σ) (c : Nat) (i : Interruption) : LiveCache σ :=
  { s with
    calls := s.calls.modify c fun call =>
      match i, call.stage with
      | _, .over _ | _, .dropped | .timeout, .created => call
      | .cancel, _ => { call with interruption := some .cancel }
      | .timeout, _ => { call with interruption := call.interruption <|> some .timeout } }

/-! ## Attempts -/

/-- Lets an attempt begin to open the store, unless it was asked to stop before. -/
def beginAttempt (s : LiveCache σ) (a : Nat) : LiveCache σ :=
  match s.attempts[a]? with
  | some ⟨_, .created, stopping⟩ =>
    s.moveAttempt a (if stopping then .ended .cancelled else .opening)
  | _ => s

/-- Ends an attempt as the factory says, whether it was asked to stop or not. A handle is stored, in
the place of another one if there is one. -/
def endAttempt (s : LiveCache σ) (a : Nat) (outcome : Outcome) : LiveCache σ :=
  match s.attempts[a]? with
  | some ⟨context, .opening, _⟩ =>
    match outcome with
    | .opened handle =>
      { s with handle := some handle }.say context (s.backend.openingLines.map (.say · none))
        |>.moveAttempt a (.ended outcome)
    | .failed fault =>
      (s.say context [.say .openFailed (some (.unopened fault))]).moveAttempt a (.ended outcome)
    | .cancelled => s.moveAttempt a (.ended outcome)
  | _ => s

/-- Lets go of an attempt that has ended, unless another one has taken its place. -/
def release (s : LiveCache σ) (a : Nat) : LiveCache σ :=
  if s.opening = some a ∧ (s.attempts[a]?).any Attempt.hasEnded then { s with opening := none }
  else s

/-- Gives up the handle, and asks the attempt that is under way to stop. -/
def close (s : LiveCache σ) : LiveCache σ :=
  { (match s.opening with
      | some a => s.stop a
      | none => s) with opening := none, handle := none }

end LiveCache

/-! ## Events -/

inductive Event where
  | start (command : Command) (hasTime : Bool)
  | begin (call : Nat)
  | ask (call : Nat)
  | wake (call : Nat)
  | perform (call : Nat)
  | refuse (call : Nat) (fault : StoreFault)
  | interrupt (call : Nat) (i : Interruption)
  | beginAttempt (attempt : Nat)
  | endAttempt (attempt : Nat) (outcome : Outcome)
  | release (attempt : Nat)
  | close
  /-- Time passes, as far as the calendar goes. -/
  | advance (time : Duration)
  /-- Someone else uses the store. -/
  | rival (call : StoreCall)

namespace LiveCache

variable {σ : Type} [Store σ]

def step (s : LiveCache σ) : Event → LiveCache σ
  | .start command hasTime => s.start command hasTime
  | .begin c => s.begin c
  | .ask c => s.ask c
  | .wake c => s.wake c
  | .perform c => s.perform c
  | .refuse c fault => s.refuse c fault
  | .interrupt c i => s.interrupt c i
  | .beginAttempt a => s.beginAttempt a
  | .endAttempt a outcome => s.endAttempt a outcome
  | .release a => s.release a
  | .close => s.close
  | .advance time => match s.now.add time with
    | .ok now => { s with now }
    | .error _ => s
  | .rival call => { s with store := (Store.perform s.now call s.store).2 }

def run (s : LiveCache σ) (events : List Event) : LiveCache σ := events.foldl step s

/-! ## One call after another -/

/-- All that happens in the course of a call while nobody else does anything: the store is opened if
it is not, and the call makes the store calls of its work, of which there are five at most. -/
def callEvents (s : LiveCache σ) (command : Command) (hasTime : Bool) : List Event :=
  let c := s.calls.length
  let a := s.attempts.length
  [.start command hasTime, .begin c, .ask c, .beginAttempt a, .endAttempt a (.opened 0),
    .release a, .wake c] ++ List.replicate 5 (.perform c)

/-- The answer of a call that is over. -/
def answer? (s : LiveCache σ) (c : Nat) : Option (Except CacheFault Answer) :=
  match (s.calls[c]?).map Call.stage with
  | some (.over a) => some a
  | _ => none

/-- Performs a command while nobody else uses the cache. -/
def call (s : LiveCache σ) (command : Command) (hasTime : Bool) :
    Option (Except CacheFault Answer) × LiveCache σ :=
  let after := s.run (s.callEvents command hasTime)
  (after.answer? s.calls.length, after)

end LiveCache

end SlidingCache
