import SlidingCache.Proofs.Live.Calls

/-!
# The opening of the store, step by step

What an event does to the attempts, to the one that may be joined, to the handle and to the count of
waiting calls. `LiveCache.attemptStep_step` lists the steps of an attempt and
`LiveCache.exists_attempt_of_step` says where a new one comes from.

`LiveCache.Coordinated` is the invariant of every run: the count is that of the calls that wait, the
only attempt that can be joined is the one under way, and the handle is what an attempt has ended
with, one that was asked to stop if another one is under way.
-/

namespace SlidingCache

/-- The attempt that a call waits for. -/
def Call.awaited? (c : Call) : Option Nat := match c.stage with
  | .joined a _ => some a
  | _ => none

def Call.isWaiting (c : Call) : Bool := c.awaited?.isSome

/-- Events that have nothing to do with the opening of the store. -/
def Event.isApart : Event → Bool
  | .start .. | .begin _ | .perform _ | .refuse .. | .interrupt .. | .advance _ | .rival _ => true
  | _ => false

namespace LiveCache

variable {σ : Type} {s : LiveCache σ} {a c : Nat} {e : Event}

/-! ## Events apart -/

/-- The parts of the state that the opening of the store goes by. -/
def openingState (s : LiveCache σ) : Option Handle × Option Nat × Nat × List Attempt :=
  (s.handle, s.opening, s.waiting, s.attempts)

theorem isOpen_eq_false_iff : s.isOpen = false ↔ s.handle = none :=
  Option.isSome_eq_false_iff.trans Option.isNone_iff_eq_none

theorem openingState_deliver {command : Command} {handle : Handle} {request : Request}
    {reply : Except StoreFault request.call.Reply} :
    (s.deliver c command handle request reply).openingState = s.openingState := by
  unfold deliver
  cases h : (request.work.resume request.key s.now reply).next <;> simp only [h] <;> rfl

theorem openingState_step_of_isApart [Store σ] (h : e.isApart) :
    (s.step e).openingState = s.openingState := by
  cases e with
  | begin c =>
    simp only [step, begin]
    repeat' split
    all_goals rfl
  | perform c =>
    simp only [step, perform]
    split
    · rfl
    · exact openingState_deliver
    · rfl
  | refuse c fault =>
    simp only [step, refuse]
    split
    · rfl
    · exact openingState_deliver
    · rfl
  | advance time =>
    simp only [step]
    split <;> rfl
  | start | interrupt | rival => rfl
  | ask | wake | beginAttempt | endAttempt | release | close => simp [Event.isApart] at h

section
variable [Store σ] (h : e.isApart)
include h

theorem handle_step_of_isApart : (s.step e).handle = s.handle :=
  congrArg (·.1) (openingState_step_of_isApart h)

theorem opening_step_of_isApart : (s.step e).opening = s.opening :=
  congrArg (·.2.1) (openingState_step_of_isApart h)

theorem waiting_step_of_isApart : (s.step e).waiting = s.waiting :=
  congrArg (·.2.2.1) (openingState_step_of_isApart h)

theorem attempts_step_of_isApart : (s.step e).attempts = s.attempts :=
  congrArg (·.2.2.2) (openingState_step_of_isApart h)

end

/-! ## The steps of an attempt -/

/-- What an event makes of the attempt with number `a`. -/
inductive AttemptStep (s : LiveCache σ) (a : Nat) (attempt : Attempt) : Event → Attempt → Prop
  | rest {e : Event} : AttemptStep s a attempt e attempt
  | begin : attempt.stage = .created →
    AttemptStep s a attempt (.beginAttempt a) { attempt with
      stage := if attempt.stopping then .ended .cancelled else .opening }
  | finish {outcome : Outcome} : attempt.stage = .opening →
    AttemptStep s a attempt (.endAttempt a outcome) { attempt with stage := .ended outcome }
  /-- The last call that waits gives up. -/
  | abandon {c : Nat} {call : Call} {i : Interruption} : attempt.hasEnded = false →
    s.waiting = 1 → s.calls[c]? = some call → call.awaited? = some a →
    call.interruption = some i →
    AttemptStep s a attempt (.wake c) { attempt with stopping := true }
  | close : attempt.hasEnded = false → s.opening = some a →
    AttemptStep s a attempt .close { attempt with stopping := true }

@[simp] theorem attempts_moveCall {stage : CallStage} :
    (s.moveCall c stage).attempts = s.attempts := rfl

@[simp] theorem attempts_say {context : LogContext Text} {notices : List Notice} :
    (s.say context notices).attempts = s.attempts := rfl

theorem attempts_moveAttempt {b : Nat} {stage : AttemptStage} :
    (s.moveAttempt b stage).attempts[a]? =
      if b = a then s.attempts[a]?.map fun attempt => { attempt with stage }
      else s.attempts[a]? := by
  rw [moveAttempt, List.getElem?_modify]
  split <;> simp

theorem attempts_stop {b : Nat} :
    (s.stop b).attempts[a]? =
      if b = a then s.attempts[a]?.map fun attempt =>
        if attempt.hasEnded then attempt else { attempt with stopping := true }
      else s.attempts[a]? := by
  rw [stop, List.getElem?_modify]
  split <;> simp

theorem attempts_attemptFor {context : LogContext Text} :
    (s.attemptFor context).2.attempts =
      s.attempts ++ if s.current?.isSome then [] else [⟨context, .created, false⟩] := by
  unfold attemptFor
  cases s.current? <;> simp

theorem attempts_leave {b : Nat} :
    (s.leave b).attempts = if s.waiting = 1 then (s.stop b).attempts else s.attempts := by
  unfold leave
  split <;> rfl

section
variable {attempt : Attempt} (h : s.attempts[a]? = some attempt)
include h

theorem attemptStep_rest {s' : LiveCache σ} (hsame : s'.attempts[a]? = s.attempts[a]?) :
    ∃ attempt', s'.attempts[a]? = some attempt' ∧ AttemptStep s a attempt e attempt' :=
  ⟨attempt, hsame.trans h, .rest⟩

theorem attemptStep_wake : ∃ attempt', (s.wake c).attempts[a]? = some attempt' ∧
    AttemptStep s a attempt (.wake c) attempt' := by
  unfold wake
  split
  · rename_i command hasTime b request i hc
    simp only [finish, attempts_moveCall, attempts_say, attempts_leave]
    split
    · rename_i hw
      by_cases hb : b = a
      · subst hb
        cases he : attempt.hasEnded with
        | true => exact attemptStep_rest h (by simp [attempts_stop, h, he])
        | false => exact ⟨_, by simp [attempts_stop, h, he], .abandon he hw hc rfl rfl⟩
      · exact attemptStep_rest h (by simp [attempts_stop, hb])
    · exact attemptStep_rest h rfl
  · apply attemptStep_rest h
    repeat' split
    all_goals rfl
  · exact attemptStep_rest h rfl

theorem attemptStep_beginAttempt : ∃ attempt', (s.beginAttempt a).attempts[a]? = some attempt' ∧
    AttemptStep s a attempt (.beginAttempt a) attempt' := by
  rcases attempt with ⟨context, stage, stopping⟩
  cases stage with
  | created => exact ⟨_, by simp [beginAttempt, attempts_moveAttempt, h], .begin rfl⟩
  | _ => exact ⟨_, by simp [beginAttempt, h], .rest⟩

theorem attemptStep_endAttempt {outcome : Outcome} :
    ∃ attempt', (s.endAttempt a outcome).attempts[a]? = some attempt' ∧
      AttemptStep s a attempt (.endAttempt a outcome) attempt' := by
  rcases attempt with ⟨context, stage, stopping⟩
  cases stage with
  | opening =>
    refine ⟨_, ?_, .finish rfl⟩
    cases outcome <;> simp [endAttempt, attempts_moveAttempt, h]
  | _ => exact ⟨_, by simp [endAttempt, h], .rest⟩

theorem attemptStep_close : ∃ attempt', s.close.attempts[a]? = some attempt' ∧
    AttemptStep s a attempt .close attempt' := by
  unfold close
  split
  · rename_i b hb
    by_cases hba : b = a
    · subst hba
      cases he : attempt.hasEnded with
      | true => exact attemptStep_rest h (by simp [attempts_stop, h, he])
      | false => exact ⟨_, by simp [attempts_stop, h, he], .close he hb⟩
    · exact attemptStep_rest h (by simp [attempts_stop, hba])
  · exact attemptStep_rest h rfl

/-- **The steps of an attempt**: after any event it is the same attempt in a stage that the event
allows. -/
theorem attemptStep_step [Store σ] :
    ∃ attempt', (s.step e).attempts[a]? = some attempt' ∧ AttemptStep s a attempt e attempt' := by
  cases e with
  | start | begin | perform | refuse | interrupt | advance | rival =>
    exact attemptStep_rest h (by rw [attempts_step_of_isApart rfl])
  | ask c =>
    simp only [step, ask]
    split
    · exact attemptStep_rest h rfl
    · split
      · exact attemptStep_rest h rfl
      · apply attemptStep_rest h
        simp only [attempts_moveCall, attempts_attemptFor]
        rw [List.getElem?_append_left (List.getElem?_eq_some_iff.1 h).1]
    · exact attemptStep_rest h rfl
  | wake c => exact attemptStep_wake h
  | beginAttempt b =>
    by_cases hb : b = a
    · subst hb
      exact attemptStep_beginAttempt h
    · apply attemptStep_rest h
      simp only [step, beginAttempt]
      split <;> simp [attempts_moveAttempt, hb]
  | endAttempt b outcome =>
    by_cases hb : b = a
    · subst hb
      exact attemptStep_endAttempt h
    · apply attemptStep_rest h
      simp only [step, endAttempt]
      repeat' split
      all_goals simp [attempts_moveAttempt, hb]
  | release b =>
    apply attemptStep_rest h
    simp only [step, release]
    split <;> rfl
  | close => exact attemptStep_close h

end

/-- An attempt that has ended stays as it is. -/
theorem ended_step [Store σ] {attempt : Attempt} (ha : s.attempts[a]? = some attempt)
    (he : attempt.hasEnded) : (s.step e).attempts[a]? = some attempt := by
  obtain ⟨attempt', ha', hstep⟩ := attemptStep_step (e := e) ha
  cases hstep with
  | rest => exact ha'
  | begin hs | finish hs => simp [Attempt.hasEnded, hs] at he
  | abandon hn | close hn => simp [hn] at he

/-- An attempt that has called the factory ends as the factory says. -/
theorem attempts_endAttempt [Store σ] {attempt : Attempt} {outcome : Outcome}
    (ha : s.attempts[a]? = some attempt) (hstage : attempt.stage = .opening) :
    (s.step (.endAttempt a outcome)).attempts[a]? =
      some { attempt with stage := .ended outcome } := by
  rcases attempt with ⟨context, stage, stopping⟩
  subst hstage
  cases outcome <;> simp [step, endAttempt, ha, attempts_moveAttempt]

/-- Only a call that asks for the store makes the attempts more. -/
theorem length_attempts_step [Store σ] (he : ∀ c, e ≠ .ask c) :
    (s.step e).attempts.length = s.attempts.length := by
  cases e with
  | ask c => exact absurd rfl (he c)
  | start | begin | perform | refuse | interrupt | advance | rival =>
    rw [attempts_step_of_isApart rfl]
  | wake c =>
    simp only [step, wake]
    split
    · simp only [finish, attempts_moveCall, attempts_say, attempts_leave, stop]
      split <;> simp
    · repeat' split
      all_goals rfl
    · rfl
  | _ =>
    simp only [step, beginAttempt, endAttempt, release, close]
    repeat' split
    all_goals simp [moveAttempt, say, stop]

/-- A new attempt is made by a call that asks for the store when there is no other way to it. -/
theorem exists_attempt_of_step [Store σ] {attempt' : Attempt}
    (h : (s.step e).attempts[a]? = some attempt') :
    (∃ attempt, s.attempts[a]? = some attempt ∧ AttemptStep s a attempt e attempt') ∨
      (∃ c, e = .ask c) ∧ s.handle = none ∧ s.current? = none ∧ a = s.attempts.length ∧
        (s.step e).opening = some a := by
  cases ha : s.attempts[a]? with
  | some attempt =>
    obtain ⟨attempt'', h', hstep⟩ := attemptStep_step (e := e) ha
    obtain rfl : attempt'' = attempt' := Option.some.inj (h'.symm.trans h)
    exact .inl ⟨attempt, rfl, hstep⟩
  | none =>
    right
    have hlen : s.attempts.length ≤ a := List.getElem?_eq_none_iff.1 ha
    have hlt := (List.getElem?_eq_some_iff.1 h).1
    by_cases he : ∃ c, e = .ask c
    · obtain ⟨c, rfl⟩ := he
      refine ⟨⟨c, rfl⟩, ?_⟩
      simp only [step, ask] at hlt ⊢
      split at hlt
      · simp [finish] at hlt; omega
      · split at hlt
        · simp at hlt; omega
        · rename_i ho
          cases hc : s.current? with
          | some b => simp [attemptFor, hc] at hlt; omega
          | none =>
            simp [attemptFor, hc] at hlt
            have : a = s.attempts.length := by omega
            simp_all [attemptFor]
            rfl
      · omega
    · rw [length_attempts_step fun c hs => he ⟨c, hs⟩] at hlt
      omega

/-! ## Handle and attempt under way -/

/-- An attempt that has neither ended nor been asked to stop. -/
def InFlight (s : LiveCache σ) (a : Nat) : Prop :=
  ∃ attempt, s.attempts[a]? = some attempt ∧ attempt.canBeJoined

/-- An attempt that has called the factory is under way if it was not asked to stop. -/
theorem inFlight_of_opening {attempt : Attempt} (ha : s.attempts[a]? = some attempt)
    (hstage : attempt.stage = .opening) (hstop : attempt.stopping = false) : s.InFlight a :=
  ⟨attempt, ha, by simp [Attempt.canBeJoined, Attempt.hasEnded, hstage, hstop]⟩

theorem current?_eq_some_iff : s.current? = some a ↔ s.opening = some a ∧ s.InFlight a := by
  cases ha : s.attempts[a]? <;>
    simp +contextual [current?, Option.filter_eq_some_iff, InFlight, ha]

/-- The attempt under way changes only when it is let go of, is stopped by a close, or is made. -/
theorem opening_step [Store σ] :
    (s.step e).opening = s.opening ∨ (e = .close ∧ (s.step e).opening = none) ∨
      (∃ a attempt, e = .release a ∧ s.opening = some a ∧ s.attempts[a]? = some attempt ∧
        attempt.hasEnded ∧ (s.step e).opening = none) ∨
      (∃ c, e = .ask c ∧ s.current? = none ∧ (s.step e).opening = some s.attempts.length) := by
  cases e with
  | start | begin | perform | refuse | interrupt | advance | rival =>
    exact .inl (opening_step_of_isApart rfl)
  | ask c =>
    simp only [step, ask]
    split
    · exact .inl rfl
    · split
      · exact .inl rfl
      · cases hc : s.current? with
        | some b => exact .inl (by simp [attemptFor, hc, moveCall])
        | none =>
          exact .inr (.inr (.inr ⟨c, rfl, rfl, by simp [attemptFor, hc, moveCall]⟩))
    · exact .inl rfl
  | wake c =>
    left
    simp only [step, wake, leave]
    repeat' split
    all_goals rfl
  | beginAttempt b =>
    left
    simp only [step, beginAttempt]
    split <;> rfl
  | endAttempt b outcome =>
    left
    simp only [step, endAttempt]
    repeat' split
    all_goals rfl
  | release b =>
    simp only [step, release]
    split
    · rename_i h
      cases ha : s.attempts[b]? with
      | none => simp [ha] at h
      | some attempt =>
        exact .inr (.inr (.inl ⟨b, attempt, rfl, h.1, ha, by simpa [ha] using h.2, rfl⟩))
    · exact .inl rfl
  | close => exact .inr (.inl ⟨rfl, rfl⟩)

/-- The handle changes only when an attempt ends with one, or by a close. -/
theorem handle_step [Store σ] :
    (s.step e).handle = s.handle ∨ (e = .close ∧ (s.step e).handle = none) ∨
      ∃ a attempt handle, e = .endAttempt a (.opened handle) ∧ s.attempts[a]? = some attempt ∧
        attempt.stage = .opening ∧ (s.step e).handle = some handle := by
  cases e with
  | start | begin | perform | refuse | interrupt | advance | rival =>
    exact .inl (handle_step_of_isApart rfl)
  | ask c =>
    left
    simp only [step, ask]
    split
    · rfl
    · split
      · rfl
      · cases hc : s.current? <;> simp [attemptFor, hc, moveCall]
    · rfl
  | wake c =>
    left
    simp only [step, wake, leave]
    repeat' split
    all_goals rfl
  | beginAttempt b =>
    left
    simp only [step, beginAttempt]
    split <;> rfl
  | endAttempt b outcome =>
    simp only [step, endAttempt]
    split
    · rename_i ha
      cases outcome with
      | opened handle => exact .inr (.inr ⟨b, _, handle, rfl, ha, rfl, rfl⟩)
      | failed | cancelled => exact .inl rfl
    · exact .inl rfl
  | release b =>
    left
    simp only [step, release]
    split <;> rfl
  | close => exact .inr (.inl ⟨rfl, rfl⟩)

/-- An attempt under way after an event was under way before, or it is new. -/
theorem inFlight_of_step [Store σ] (h : (s.step e).InFlight a) :
    s.InFlight a ∨ (∃ c, e = .ask c) ∧ s.handle = none ∧ s.current? = none ∧
      a = s.attempts.length ∧ (s.step e).opening = some a := by
  obtain ⟨attempt', ha', hjoin⟩ := h
  apply (exists_attempt_of_step ha').imp_left
  rintro ⟨attempt, ha, hstep⟩
  refine ⟨attempt, ha, ?_⟩
  cases hstep with
  | rest => exact hjoin
  | begin hs => simp_all [Attempt.canBeJoined, Attempt.hasEnded]
  | finish => simp [Attempt.canBeJoined, Attempt.hasEnded] at hjoin
  | abandon => simp [Attempt.canBeJoined] at hjoin
  | close => simp [Attempt.canBeJoined] at hjoin

/-! ## Waiting calls -/

theorem awaited?_delivered {call : Call} {now : Instant} {command : Command} {handle : Handle}
    {request : Request} {reply : Except StoreFault request.call.Reply} :
    ({ call with stage := delivered now command handle request reply } : Call).awaited? = none := by
  unfold delivered
  cases (request.work.resume request.key now reply).next <;> rfl

/-- A call joins an attempt when it asks for the store, and leaves it when it wakes. -/
theorem awaited?_of_callStep [Store σ] {call call' : Call} (h : CallStep s c call e call') :
    call'.awaited? = call.awaited? ∨
      (e = .ask c ∧ s.handle = none ∧ (∃ request, call.stage = .prepared request) ∧
        call.interruption = none ∧
        call'.awaited? = some (s.current?.getD s.attempts.length)) ∨
      (e = .wake c ∧ call'.awaited? = none) := by
  rcases call with ⟨command, hasTime, stage, interruption⟩
  cases h with
  | rest | interrupt => exact .inl rfl
  | drop hs | reject hs | breakOff hs | turnBack hs | take hs => subst hs; exact .inl rfl
  | prepare hs => subst hs; cases hasTime <;> exact .inl rfl
  | join hs hi ho => exact .inr (.inl ⟨rfl, ho, ⟨_, hs⟩, hi, rfl⟩)
  | leave => exact .inr (.inr ⟨rfl, rfl⟩)
  | @wake _ _ _ outcome => cases outcome <;> exact .inr (.inr ⟨rfl, rfl⟩)
  | perform hs | refuse hs => subst hs; exact .inl awaited?_delivered

theorem countP_isWaiting_step [Store σ] (hask : ∀ c, e ≠ .ask c) (hwake : ∀ c, e ≠ .wake c) :
    (s.step e).calls.countP Call.isWaiting = s.calls.countP Call.isWaiting := by
  by_cases hstart : ∃ command hasTime, e = .start command hasTime
  · obtain ⟨command, hasTime, rfl⟩ := hstart
    simp [step, start, Call.isWaiting, Call.awaited?]
  · refine countP_congr_getElem? fun c => ?_
    cases hc : s.calls[c]? with
    | none =>
      have hlen := length_calls_step (s := s) (e := e) fun _ _ h => hstart ⟨_, _, h⟩
      rw [List.getElem?_eq_none_iff] at hc
      rw [List.getElem?_eq_none_iff.2 (hlen ▸ hc)]
    | some call =>
      obtain ⟨call', hc', hstep⟩ := callStep_step (e := e) hc
      rw [hc']
      obtain h | ⟨h, _⟩ | ⟨h, _⟩ := awaited?_of_callStep hstep
      · simp [Call.isWaiting, h]
      · exact absurd h (hask c)
      · exact absurd h (hwake c)

section
variable {call : Call} (h : s.calls[c]? = some call)
include h

theorem countP_isWaiting_moveCall (stage : CallStage) :
    (s.moveCall c stage).calls.countP Call.isWaiting + (if call.isWaiting then 1 else 0) =
      s.calls.countP Call.isWaiting
        + (if ({ call with stage } : Call).isWaiting then 1 else 0) :=
  countP_modify h

variable {stage : CallStage}

/-- A call that did not wait and does not wait. -/
theorem countP_isWaiting_pass (hbefore : call.isWaiting = false)
    (hafter : ({ call with stage } : Call).isWaiting = false) :
    (s.moveCall c stage).calls.countP Call.isWaiting = s.calls.countP Call.isWaiting := by
  simpa [hbefore, hafter] using countP_isWaiting_moveCall h stage

/-- A call that joins an attempt. -/
theorem countP_isWaiting_enter (hbefore : call.isWaiting = false)
    (hafter : ({ call with stage } : Call).isWaiting) :
    (s.moveCall c stage).calls.countP Call.isWaiting = s.calls.countP Call.isWaiting + 1 := by
  simpa [hbefore, hafter] using countP_isWaiting_moveCall h stage

/-- A call that leaves an attempt. -/
theorem countP_isWaiting_exit (hbefore : call.isWaiting)
    (hafter : ({ call with stage } : Call).isWaiting = false) :
    (s.moveCall c stage).calls.countP Call.isWaiting = s.calls.countP Call.isWaiting - 1 := by
  have := countP_isWaiting_moveCall h stage
  simp only [hbefore, hafter, if_true] at this
  simp at this
  omega

end

@[simp] theorem waiting_attemptFor {context : LogContext Text} :
    (s.attemptFor context).2.waiting = s.waiting := by
  unfold attemptFor
  cases s.current? <;> rfl

/-- The count of waiting calls stays right. -/
theorem waiting_step [Store σ] (h : s.waiting = s.calls.countP Call.isWaiting) :
    (s.step e).waiting = (s.step e).calls.countP Call.isWaiting := by
  cases e with
  | ask c =>
    simp only [step, ask]
    split
    · rename_i hc
      exact h.trans (countP_isWaiting_pass hc rfl rfl).symm
    · rename_i request hc
      split
      · exact h.trans (countP_isWaiting_pass hc rfl rfl).symm
      · rw [countP_isWaiting_enter (by simpa using hc) rfl rfl]
        simpa [moveCall] using h
    · exact h
  | wake c =>
    simp only [step, wake]
    split
    · rename_i a request i hc
      have hc' := (congrArg (·[c]?) (calls_leave (s := s) (a := a))).trans hc
      refine Eq.trans ?_ (countP_isWaiting_exit hc' rfl rfl).symm
      rw [calls_leave, ← h]
      rfl
    · rename_i a request hc
      split
      · rename_i outcome ha
        cases outcome <;>
        · refine Eq.trans ?_ (countP_isWaiting_exit hc rfl rfl).symm
          rw [← h]
          rfl
      · exact h
    · exact h
  | start | begin | perform | refuse | interrupt | advance | rival =>
    rw [countP_isWaiting_step (by simp) (by simp), waiting_step_of_isApart rfl, h]
  | beginAttempt | endAttempt | release | close =>
    rw [countP_isWaiting_step (by simp) (by simp), ← h]
    simp only [step, beginAttempt, endAttempt, release, close]
    repeat' split
    all_goals rfl

/-! ## The invariant -/

structure Coordinated (s : LiveCache σ) : Prop where
  /-- The count of waiting calls is right. -/
  waiting : s.waiting = s.calls.countP Call.isWaiting
  /-- A call waits for an attempt that exists. -/
  awaited : ∀ {c a : Nat} {call : Call}, s.calls[c]? = some call → call.awaited? = some a →
    a < s.attempts.length
  underway : ∀ {a}, s.InFlight a → s.opening = some a
  /-- The handle is what an attempt has ended with. If another attempt is under way, that one was
  asked to stop. -/
  stored : ∀ {handle}, s.handle = some handle → ∃ (a : Nat) (attempt : Attempt),
    s.attempts[a]? = some attempt ∧ attempt.stage = .ended (.opened handle) ∧
      (attempt.stopping ∨ ∀ {b}, ¬ s.InFlight b)

namespace Coordinated

theorem current?_eq_some_iff (h : s.Coordinated) : s.current? = some a ↔ s.InFlight a :=
  LiveCache.current?_eq_some_iff.trans ⟨And.right, fun ha => ⟨h.underway ha, ha⟩⟩

/-- No attempt is under way after a close. -/
theorem not_inFlight_close [Store σ] (h : s.Coordinated) : ¬ (s.step .close).InFlight a := by
  intro ha
  obtain hb | ⟨⟨c, hc⟩, _⟩ := inFlight_of_step ha
  · obtain ⟨attempt, hattempt, hjoin⟩ := hb
    obtain ⟨attempt', ha', hjoin'⟩ := ha
    have hopening := h.underway ⟨attempt, hattempt, hjoin⟩
    have hended : attempt.hasEnded = false := by
      simp [Attempt.canBeJoined] at hjoin; exact hjoin.1
    simp only [step, close, hopening, attempts_stop, hattempt] at ha'
    simp [hended] at ha'
    subst ha'
    simp [Attempt.canBeJoined] at hjoin'
  · cases hc

/-- When the only attempt under way has ended, none is. -/
theorem not_inFlight_endAttempt [Store σ] {b : Nat} {attempt : Attempt} {outcome : Outcome}
    (h : s.Coordinated) (hb : s.attempts[b]? = some attempt) (hstage : attempt.stage = .opening)
    (hstop : attempt.stopping = false) : ¬ (s.step (.endAttempt b outcome)).InFlight a := by
  intro ha
  obtain ha' | ⟨⟨c, hc⟩, _⟩ := inFlight_of_step ha
  · have hflight := inFlight_of_opening hb hstage hstop
    obtain rfl : a = b := Option.some.inj ((h.underway ha').symm.trans (h.underway hflight))
    obtain ⟨attempt', hend, hjoin⟩ := ha
    cases (attempts_endAttempt hb hstage).symm.trans hend
    simp [Attempt.canBeJoined, Attempt.hasEnded] at hjoin
  · cases hc

theorem awaited_step [Store σ] {call' : Call} (h : s.Coordinated)
    (hc : (s.step e).calls[c]? = some call') (ha : call'.awaited? = some a) :
    a < (s.step e).attempts.length := by
  have hmono : a < s.attempts.length → a < (s.step e).attempts.length := by
    intro hlt
    obtain ⟨attempt', h', _⟩ := attemptStep_step (e := e) (List.getElem?_eq_getElem hlt)
    exact (List.getElem?_eq_some_iff.1 h').1
  obtain ⟨call, hcall, hstep⟩ | ⟨command, hasTime, _, _, rfl⟩ := exists_call_of_step hc
  · obtain hsame | ⟨rfl, ho, ⟨request, hs⟩, hi, hjoin⟩ | ⟨_, hnone⟩ := awaited?_of_callStep hstep
    · exact hmono (h.awaited hcall (hsame ▸ ha))
    · obtain rfl : s.current?.getD s.attempts.length = a := Option.some.inj (hjoin.symm.trans ha)
      cases hcur : s.current? with
      | some b =>
        obtain ⟨attempt, hb, _⟩ := h.current?_eq_some_iff.1 hcur
        rw [hcur] at hmono
        exact hmono (List.getElem?_eq_some_iff.1 hb).1
      | none =>
        rcases call with ⟨command, hasTime, stage, interruption⟩
        subst hs hi
        simp [LiveCache.step, ask, hcall, ho, attempts_attemptFor, hcur]
    · rw [hnone] at ha; cases ha
  · simp [Call.awaited?] at ha

theorem underway_step [Store σ] (h : s.Coordinated) (ha : (s.step e).InFlight a) :
    (s.step e).opening = some a := by
  obtain hb | ⟨_, _, _, _, hopening⟩ := inFlight_of_step ha
  · have hopen := h.underway hb
    obtain hsame | ⟨rfl, _⟩ | ⟨b, attempt, rfl, hopening, hb', hended, _⟩ | ⟨c, rfl, hc, _⟩ :=
      opening_step (s := s) (e := e)
    · rw [hsame, hopen]
    · exact absurd ha h.not_inFlight_close
    · obtain rfl : a = b := Option.some.inj (hopen.symm.trans hopening)
      obtain ⟨attempt', ha', hjoin⟩ := hb
      obtain rfl : attempt = attempt' := Option.some.inj (hb'.symm.trans ha')
      simp [Attempt.canBeJoined, hended] at hjoin
    · rw [h.current?_eq_some_iff.2 hb] at hc
      cases hc
  · exact hopening

theorem stored_step [Store σ] {handle : Handle} (h : s.Coordinated)
    (hafter : (s.step e).handle = some handle) : ∃ (a : Nat) (attempt : Attempt),
      (s.step e).attempts[a]? = some attempt ∧ attempt.stage = .ended (.opened handle) ∧
        (attempt.stopping ∨ ∀ {b}, ¬ (s.step e).InFlight b) := by
  obtain hsame | ⟨rfl, hnone⟩ | ⟨b, attempt, handle', rfl, hb, hstage, hstored⟩ :=
    handle_step (s := s) (e := e)
  · obtain ⟨b, attempt, hb, hended, hwhy⟩ := h.stored (hsame.symm.trans hafter)
    refine ⟨b, attempt, ended_step hb (by simp [Attempt.hasEnded, hended]), hended, ?_⟩
    refine hwhy.imp_right fun hrest a ha => ?_
    obtain hold | ⟨_, hnone, _⟩ := inFlight_of_step ha
    · exact hrest hold
    · simp [hsame, hnone] at hafter
  · cases hnone.symm.trans hafter
  · obtain rfl : handle' = handle := Option.some.inj (hstored.symm.trans hafter)
    refine ⟨b, _, attempts_endAttempt hb hstage, rfl, ?_⟩
    cases hstop : attempt.stopping with
    | true => exact .inl rfl
    | false => exact .inr (h.not_inFlight_endAttempt hb hstage hstop)

theorem step [Store σ] (h : s.Coordinated) : (s.step e).Coordinated where
  waiting := waiting_step h.waiting
  awaited := h.awaited_step
  underway := h.underway_step
  stored := h.stored_step

end Coordinated

end LiveCache

end SlidingCache
