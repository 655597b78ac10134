import SlidingCache.Cache.Basic
import SlidingCache.Renewal

/-!
# Requests

What a caller asks of a cache is a `Command`. Its key and its expiration are checked before the
store is touched: `Command.request` gives the `Request`, the operation with its store key and the
`Work` that the store has to do for it, or the fault. `Command.answer` turns what the work brings
into what the caller gets; a lenient read turns every fault into a miss, save that it was cancelled.
-/

namespace SlidingCache

inductive Command where
  | get (key : Text)
  | set (key : Text) (value : Bytes) (options : ExpirationOptions)
  | remove (key : Text)
  | refresh (key : Text)
  /-- A lenient read, which adds the payload to what a buffer holds. -/
  | tryGet (key : Text) (buffer : Bytes)

/-- What a caller gets back. -/
inductive Answer where
  | done
  | payload (value : Option Bytes)
  | buffer (hit : Bool) (bytes : Bytes)
  deriving DecidableEq

/-- What remains to be done with the store. -/
inductive Work where
  | read (stage : ReadStage)
  /-- A single call that brings no payload. -/
  | write (call : StoreCall)
  deriving DecidableEq

namespace Work

abbrev WorkTurn := Turn Work (Option Bytes)

/-- The call that the store has to perform next. -/
def call (key : Text) : Work → StoreCall
  | read stage => stage.call key
  | write call => call

def rank : Work → Nat
  | read stage => stage.rank + 1
  | write _ => 0

/-- The turn that the answer to the call allows. -/
def resume (key : Text) (now : Instant) :
    (work : Work) → Except StoreFault (work.call key).Reply → WorkTurn
  | read stage, reply =>
    let turn := stage.resume key now reply
    ⟨turn.notices, turn.next.map Work.read id⟩
  | write _, .ok _ => ⟨[], .inr (.ok none)⟩
  | write _, .error e => ⟨[], .inr (.error (.store e))⟩

theorem rank_resume {key now} {work next : Work} {reply}
    (h : (resume key now work reply).next = .inl next) : next.rank < work.rank := by
  cases work with
  | read stage =>
    simp only [resume] at h
    cases hs : (stage.resume key now reply).next with
    | inl stage' =>
      simp only [hs, Sum.map_inl, Sum.inl.injEq] at h
      have := ReadStage.rank_resume hs
      subst h
      simpa [rank] using this
    | inr result => simp [hs] at h
  | write call => cases reply <;> simp [resume] at h

end Work

/-- An operation under way: its store key and its work. -/
structure Request where
  operation : Operation
  key : Text
  work : Work
  deriving DecidableEq

namespace Request

/-- The call that the request waits for. -/
def call (r : Request) : StoreCall := r.work.call r.key

def context (r : Request) : LogContext Text := ⟨r.operation.name, r.key⟩

end Request

namespace Command

def key : Command → Text
  | get key | set key .. | remove key | refresh key | tryGet key _ => key

/-- The operation as which a command counts. -/
def operation : Command → Operation
  | get _ | tryGet .. => .get
  | set .. => .set
  | remove _ => .remove
  | refresh _ => .refresh

/-- The call that stores some data. If nothing of their time to live were left, it would be a
delete. -/
def storing (key : Text) (data : Bytes) : Option Duration → StoreCall
  | some ttl => if ttl.isPositive then .put key data (some ttl) else .delete key none
  | none => .put key data none

theorem storing_of_isPositive {key : Text} {data : Bytes} {ttl : Option Duration}
    (h : ∀ d ∈ ttl, d.isPositive) : storing key data ttl = .put key data ttl := by
  cases ttl with
  | none => rfl
  | some d => exact if_pos (h d rfl)

/-- The data are put, unless their time to live is over. -/
theorem storing_cases (key : Text) (data : Bytes) (ttl : Option Duration) :
    (∀ d ∈ ttl, d.isPositive) ∧ storing key data ttl = .put key data ttl ∨
      storing key data ttl = .delete key none := by
  by_cases h : ∀ d ∈ ttl, d.isPositive
  · exact .inl ⟨h, storing_of_isPositive h⟩
  · cases ttl with
    | none => exact absurd (by rintro d ⟨⟩) h
    | some d => exact .inr (if_neg fun hpos => h (by rintro _ ⟨⟩; exact hpos))

/-- The write of a value at an instant. -/
def writeCall (key : Text) (value : Bytes) (options : ExpirationOptions) (now : Instant) :
    Except CacheFault StoreCall := do
  let plan ← (options.plan now).mapError .plan
  let data ← (Entry.encode ⟨value, plan.absolute, plan.sliding⟩).mapError .encode
  return storing key data plan.ttl

/-- The work that a command with this store key asks for. -/
def work (command : Command) (key : Text) (now : Instant) : Except CacheFault Work :=
  match command with
  | get _ | tryGet .. | refresh _ => .ok (.read .fetching)
  | set _ value options => .write <$> writeCall key value options now
  | remove _ => .ok (.write (.delete key none))

/-- Checks a command and prepares its work. -/
def request (command : Command) (cache : Cache) (now : Instant) : Except CacheFault Request := do
  let key ← (cache.storeKey command.key).mapError .invalidKey
  return ⟨command.operation, key, ← command.work key now⟩

/-- What the caller gets for the payload that the work brought or for its fault. -/
def answer : Command → Except CacheFault (Option Bytes) → Except CacheFault Answer
  | get _, .ok payload => .ok (.payload payload)
  | tryGet _ buffer, .ok (some payload) => .ok (.buffer true (buffer ++ payload))
  | tryGet _ buffer, .ok none => .ok (.buffer false buffer)
  | tryGet _ _, .error .cancelled => .error .cancelled
  | tryGet _ buffer, .error _ => .ok (.buffer false buffer)
  | _, .ok _ => .ok .done
  | _, .error fault => .error fault

end Command

end SlidingCache
