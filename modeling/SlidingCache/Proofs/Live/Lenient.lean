import SlidingCache.Proofs.Live.SingleFlight

/-!
# A lenient read in the place of a read

A lenient read does what a read does and only answers otherwise. `LiveCache.leniently` puts one in
the place of a read at a moment: it changes the command of the call and, if the call is over, its
answer. Every event keeps this relation (`LiveCache.step_leniently`), so of two runs that differ in
one call, a lenient read here and a read there, all else is the same, and so is the answer, taken
leniently (`LiveCache.run_start_tryGet`).
-/

namespace SlidingCache

/-! ## A lenient read is a read -/

/-- What a lenient read answers where a read answers so. -/
def leniently (buffer : Bytes) : Except CacheFault Answer → Except CacheFault Answer
  | .ok (.payload (some payload)) => .ok (.buffer true (buffer ++ payload))
  | .error .cancelled => .error .cancelled
  | _ => .ok (.buffer false buffer)

theorem Command.answer_tryGet (key : Text) (buffer : Bytes)
    (result : Except CacheFault (Option Bytes)) :
    (tryGet key buffer).answer result = leniently buffer ((get key).answer result) := by
  cases result with
  | ok payload => cases payload <;> rfl
  | error fault => cases fault <;> rfl

def CallStage.leniently (buffer : Bytes) : CallStage → CallStage
  | .over answer => .over (SlidingCache.leniently buffer answer)
  | stage => stage

/-- The lenient read in the place of a read. -/
def Call.leniently (buffer : Bytes) (call : Call) : Call :=
  { call with
    command := .tryGet call.command.key buffer
    stage := call.stage.leniently buffer }

theorem modify_concat {α : Type} {l : List α} {i : Nat} {f : α → α} {x : α} (h : i < l.length) :
    (l ++ [x]).modify i f = l.modify i f ++ [x] := by
  induction l generalizing i with
  | nil => cases h
  | cons y l ih =>
    cases i with
    | zero => rfl
    | succ i => exact congrArg (y :: ·) (ih (Nat.lt_of_succ_lt_succ h))

theorem modify_concat_length {α : Type} {l : List α} {f : α → α} {x : α} :
    (l ++ [x]).modify l.length f = l ++ [f x] := by
  induction l with
  | nil => rfl
  | cons y l ih => exact congrArg (y :: ·) ih

namespace LiveCache

variable {σ : Type} {s : LiveCache σ} {c d : Nat} {key : Text} {buffer : Bytes} {call : Call}
  {request : Request} {hasTime : Bool} {interruption : Option Interruption}

/-- The same moment with a lenient read in the place of a read. -/
def leniently (s : LiveCache σ) (c : Nat) (buffer : Bytes) : LiveCache σ :=
  { s with calls := s.calls.modify c (Call.leniently buffer) }

theorem calls_leniently : (s.leniently c buffer).calls[d]? =
    if c = d then (s.calls[d]?).map (Call.leniently buffer) else s.calls[d]? := by
  rw [leniently, List.getElem?_modify]
  split <;> simp

theorem calls_leniently_self : (s.leniently c buffer).calls[c]? =
    (s.calls[c]?).map (Call.leniently buffer) := by
  rw [calls_leniently, if_pos rfl]

theorem calls_leniently_of_ne (h : c ≠ d) :
    (s.leniently c buffer).calls[d]? = s.calls[d]? := by
  rw [calls_leniently, if_neg h]

theorem moveCall_leniently (stage : CallStage) :
    (s.leniently c buffer).moveCall c (stage.leniently buffer) =
      (s.moveCall c stage).leniently c buffer := by
  simp only [leniently, moveCall, List.modify_modify_eq]
  rfl

theorem moveCall_leniently_of_ne {stage : CallStage} (h : c ≠ d) :
    (s.leniently c buffer).moveCall d stage = (s.moveCall d stage).leniently c buffer :=
  congrArg (fun calls => { s with calls }) (List.modify_modify_ne _ _ _ h)

theorem finish_leniently {result : Except CacheFault (Option Bytes)} :
    (s.leniently c buffer).finish c (.tryGet key buffer) request result =
      (s.finish c (.get key) request result).leniently c buffer := by
  rw [finish, Command.answer_tryGet]
  exact moveCall_leniently (s := s.say request.context _) (.over _)

theorem finish_leniently_of_ne {command : Command} {result : Except CacheFault (Option Bytes)}
    (h : c ≠ d) : (s.leniently c buffer).finish d command request result =
      (s.finish d command request result).leniently c buffer :=
  moveCall_leniently_of_ne (s := s.say request.context _) h

theorem attemptFor_leniently {context : LogContext Text} :
    (s.leniently c buffer).attemptFor context =
      ((s.attemptFor context).1, (s.attemptFor context).2.leniently c buffer) := by
  have hcurrent : (s.leniently c buffer).current? = s.current? := rfl
  unfold attemptFor
  rw [hcurrent]
  cases s.current? <;> rfl

theorem leave_leniently {a : Nat} :
    (s.leniently c buffer).leave a = (s.leave a).leniently c buffer := by
  have hwaiting : (s.leniently c buffer).waiting = s.waiting := rfl
  unfold leave
  rw [hwaiting]
  split <;> rfl

theorem deliver_leniently {handle : Handle} {reply : Except StoreFault request.call.Reply} :
    (s.leniently c buffer).deliver c (.tryGet key buffer) handle request reply =
      (s.deliver c (.get key) handle request reply).leniently c buffer := by
  have hnow : (s.leniently c buffer).now = s.now := rfl
  unfold deliver
  rw [hnow]
  cases hnext : (request.work.resume request.key s.now reply).next with
  | inl work =>
    simp only [hnext]
    exact moveCall_leniently (s := s.say request.context _) (.working _ _)
  | inr result =>
    simp only [hnext]
    exact finish_leniently (s := s.say request.context _)

theorem deliver_leniently_of_ne {command : Command} {handle : Handle}
    {reply : Except StoreFault request.call.Reply} (h : c ≠ d) :
    (s.leniently c buffer).deliver d command handle request reply =
      (s.deliver d command handle request reply).leniently c buffer := by
  have hnow : (s.leniently c buffer).now = s.now := rfl
  unfold deliver
  rw [hnow]
  cases hnext : (request.work.resume request.key s.now reply).next with
  | inl work =>
    simp only [hnext]
    exact moveCall_leniently_of_ne (s := s.say request.context _) h
  | inr result =>
    simp only [hnext]
    exact finish_leniently_of_ne (s := s.say request.context _) h

/-! ### The turns of others -/

section
variable (h : c ≠ d)
include h

theorem begin_leniently_of_ne :
    (s.leniently c buffer).begin d = (s.begin d).leniently c buffer := by
  have hcache : (s.leniently c buffer).cache = s.cache := rfl
  have hnow : (s.leniently c buffer).now = s.now := rfl
  simp only [begin, calls_leniently_of_ne h, hcache, hnow]
  repeat' split
  all_goals first | rfl | exact moveCall_leniently_of_ne h | exact finish_leniently_of_ne h

theorem ask_leniently_of_ne : (s.leniently c buffer).ask d = (s.ask d).leniently c buffer := by
  have hhandle : (s.leniently c buffer).handle = s.handle := rfl
  simp only [ask, calls_leniently_of_ne h, hhandle]
  split
  · exact finish_leniently_of_ne h
  · split
    · exact moveCall_leniently_of_ne h
    · rw [attemptFor_leniently]
      exact moveCall_leniently_of_ne (s := { (s.attemptFor _).2 with waiting := _ }) h
  · rfl

theorem wake_leniently_of_ne : (s.leniently c buffer).wake d = (s.wake d).leniently c buffer := by
  have hattempts : (s.leniently c buffer).attempts = s.attempts := rfl
  simp only [wake, calls_leniently_of_ne h, hattempts]
  split
  · rw [leave_leniently]
    exact finish_leniently_of_ne h
  · split
    · split
      · exact moveCall_leniently_of_ne (s := { s with waiting := _ }) h
      · exact finish_leniently_of_ne (s := { s with waiting := _ }) h
      · exact finish_leniently_of_ne (s := { s with waiting := _ }) h
    · rfl
  · rfl

theorem perform_leniently_of_ne [Store σ] :
    (s.leniently c buffer).perform d = (s.perform d).leniently c buffer := by
  simp only [LiveCache.perform, calls_leniently_of_ne h]
  split
  · exact finish_leniently_of_ne h
  · exact deliver_leniently_of_ne (s := { s with store := _ }) h
  · rfl

theorem refuse_leniently_of_ne {fault : StoreFault} :
    (s.leniently c buffer).refuse d fault = (s.refuse d fault).leniently c buffer := by
  simp only [LiveCache.refuse, calls_leniently_of_ne h]
  split
  · exact finish_leniently_of_ne h
  · exact deliver_leniently_of_ne h
  · rfl

theorem interrupt_leniently_of_ne {i : Interruption} :
    (s.leniently c buffer).interrupt d i = (s.interrupt d i).leniently c buffer :=
  congrArg (fun calls => { s with calls }) (List.modify_modify_ne _ _ _ h)

end

/-! ### Its own turns -/

section
variable {stage : CallStage} (h : s.calls[c]? = some ⟨.get key, hasTime, stage, interruption⟩)
include h

theorem calls_leniently_get (buffer : Bytes) : (s.leniently c buffer).calls[c]? =
    some ⟨.tryGet key buffer, hasTime, stage.leniently buffer, interruption⟩ := by
  rw [calls_leniently_self, h]
  rfl

theorem begin_leniently : (s.leniently c buffer).begin c = (s.begin c).leniently c buffer := by
  have hcalls := calls_leniently_get h buffer
  cases stage with
  | created =>
    cases interruption with
    | some i =>
      simp only [begin, h, hcalls, CallStage.leniently]
      exact moveCall_leniently .dropped
    | none =>
      have hrequest : (Command.tryGet key buffer).request (s.leniently c buffer).cache
        (s.leniently c buffer).now = (Command.get key).request s.cache s.now := rfl
      simp only [begin, h, hcalls, CallStage.leniently, hrequest]
      split
      · rw [Command.answer_tryGet]
        exact moveCall_leniently (.over _)
      · split
        · exact moveCall_leniently (.prepared _)
        · exact finish_leniently
  | _ => simp only [begin, h, hcalls, CallStage.leniently]

theorem ask_leniently : (s.leniently c buffer).ask c = (s.ask c).leniently c buffer := by
  have hcalls := calls_leniently_get h buffer
  have hhandle : (s.leniently c buffer).handle = s.handle := rfl
  cases stage with
  | prepared request =>
    cases interruption with
    | some i =>
      simp only [ask, h, hcalls, CallStage.leniently]
      exact finish_leniently
    | none =>
      simp only [ask, h, hcalls, CallStage.leniently, hhandle]
      split
      · exact moveCall_leniently (.working _ _)
      · rw [attemptFor_leniently]
        exact moveCall_leniently (s := { (s.attemptFor _).2 with waiting := _ }) (.joined _ _)
  | _ => simp only [ask, h, hcalls, CallStage.leniently]

theorem wake_leniently : (s.leniently c buffer).wake c = (s.wake c).leniently c buffer := by
  have hcalls := calls_leniently_get h buffer
  have hattempts : (s.leniently c buffer).attempts = s.attempts := rfl
  cases stage with
  | joined a request =>
    cases interruption with
    | some i =>
      simp only [wake, h, hcalls, CallStage.leniently]
      rw [leave_leniently]
      exact finish_leniently
    | none =>
      simp only [wake, h, hcalls, CallStage.leniently, hattempts]
      split
      · split
        · exact moveCall_leniently (s := { s with waiting := _ }) (.working _ _)
        · exact finish_leniently (s := { s with waiting := _ })
        · exact finish_leniently (s := { s with waiting := _ })
      · rfl
  | _ => simp only [wake, h, hcalls, CallStage.leniently]

theorem perform_leniently [Store σ] :
    (s.leniently c buffer).perform c = (s.perform c).leniently c buffer := by
  have hcalls := calls_leniently_get h buffer
  cases stage with
  | working handle request =>
    cases interruption with
    | some i =>
      simp only [LiveCache.perform, h, hcalls, CallStage.leniently]
      exact finish_leniently
    | none =>
      simp only [LiveCache.perform, h, hcalls, CallStage.leniently]
      exact deliver_leniently (s := { s with store := _ })
  | _ => simp only [LiveCache.perform, h, hcalls, CallStage.leniently]

theorem refuse_leniently {fault : StoreFault} :
    (s.leniently c buffer).refuse c fault = (s.refuse c fault).leniently c buffer := by
  have hcalls := calls_leniently_get h buffer
  cases stage with
  | working handle request =>
    cases interruption with
    | some i =>
      simp only [LiveCache.refuse, h, hcalls, CallStage.leniently]
      exact finish_leniently
    | none =>
      simp only [LiveCache.refuse, h, hcalls, CallStage.leniently]
      exact deliver_leniently
  | _ => simp only [LiveCache.refuse, h, hcalls, CallStage.leniently]

end

theorem interrupt_leniently {i : Interruption} :
    (s.leniently c buffer).interrupt c i = (s.interrupt c i).leniently c buffer := by
  simp only [leniently, interrupt, List.modify_modify_eq]
  congr 2
  funext call
  rcases call with ⟨command, hasTime, stage, interruption⟩
  cases i <;> cases stage <;> rfl

/-! ### All events -/

theorem start_leniently {command : Command} (hlt : c < s.calls.length) :
    (s.leniently c buffer).start command hasTime =
      (s.start command hasTime).leniently c buffer :=
  congrArg (fun calls => { s with calls }) (modify_concat hlt).symm

variable [Store σ]

/-- **A lenient read keeps step with a read.** -/
theorem step_leniently (hc : s.calls[c]? = some call) (hget : call.command = .get key) (e : Event) :
    (s.leniently c buffer).step e = (s.step e).leniently c buffer := by
  rcases call with ⟨command, hasTime, stage, interruption⟩
  obtain rfl : command = .get key := hget
  cases e with
  | start command hasTime' => exact start_leniently (List.getElem?_eq_some_iff.1 hc).1
  | begin d =>
    by_cases hd : c = d
    · subst hd; exact begin_leniently hc
    · exact begin_leniently_of_ne hd
  | ask d =>
    by_cases hd : c = d
    · subst hd; exact ask_leniently hc
    · exact ask_leniently_of_ne hd
  | wake d =>
    by_cases hd : c = d
    · subst hd; exact wake_leniently hc
    · exact wake_leniently_of_ne hd
  | perform d =>
    by_cases hd : c = d
    · subst hd; exact perform_leniently hc
    · exact perform_leniently_of_ne hd
  | refuse d fault =>
    by_cases hd : c = d
    · subst hd; exact refuse_leniently hc
    · exact refuse_leniently_of_ne hd
  | interrupt d i =>
    by_cases hd : c = d
    · subst hd; exact interrupt_leniently
    · exact interrupt_leniently_of_ne hd
  | beginAttempt a =>
    have hattempts : (s.leniently c buffer).attempts = s.attempts := rfl
    simp only [step, beginAttempt, hattempts]
    split <;> rfl
  | endAttempt a outcome =>
    have hattempts : (s.leniently c buffer).attempts = s.attempts := rfl
    simp only [step, endAttempt, hattempts]
    repeat' split
    all_goals rfl
  | release a =>
    have hsame : (s.leniently c buffer).opening = s.opening ∧
      (s.leniently c buffer).attempts = s.attempts := ⟨rfl, rfl⟩
    simp only [step, release, hsame]
    split <;> rfl
  | close =>
    have hopening : (s.leniently c buffer).opening = s.opening := rfl
    simp only [step, close, hopening]
    split <;> rfl
  | advance time =>
    have hnow : (s.leniently c buffer).now = s.now := rfl
    simp only [step, hnow]
    split <;> rfl
  | rival call => rfl

theorem run_leniently (hc : s.calls[c]? = some call) (hget : call.command = .get key)
    (events : List Event) :
    (s.leniently c buffer).run events = (s.run events).leniently c buffer := by
  induction events generalizing s call with
  | nil => rfl
  | cons e events ih =>
    obtain ⟨call', hc', hstep⟩ := callStep_step (e := e) hc
    rw [run_cons, run_cons, step_leniently hc hget, ih hc' ((command_of_callStep hstep).trans hget)]

/-- **A lenient read is a read, taken leniently**: whatever happens, all is as with a read in its
place, but for its own answer. -/
theorem run_start_tryGet (key : Text) (buffer : Bytes) (hasTime : Bool) (events : List Event) :
    (s.start (.tryGet key buffer) hasTime).run events =
      ((s.start (.get key) hasTime).run events).leniently s.calls.length buffer := by
  have hcalls : (s.start (.get key) hasTime).calls[s.calls.length]? =
      some { command := .get key, hasTime } := List.getElem?_concat_length
  have hnew : s.start (.tryGet key buffer) hasTime =
      (s.start (.get key) hasTime).leniently s.calls.length buffer := by
    simp only [start, leniently, modify_concat_length]
    rfl
  rw [hnew, run_leniently hcalls rfl]

omit [Store σ] in
theorem answer?_leniently : (s.leniently c buffer).answer? c =
    (s.answer? c).map (SlidingCache.leniently buffer) := by
  rw [answer?, answer?, calls_leniently_self]
  cases s.calls[c]? with
  | none => rfl
  | some call =>
    rcases call with ⟨command, hasTime, stage, interruption⟩
    cases stage <;> rfl

end LiveCache

end SlidingCache
