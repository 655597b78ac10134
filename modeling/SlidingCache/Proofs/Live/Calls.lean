import SlidingCache.Cache.Live

/-!
# What the operations on a live cache touch

Every operation of `LiveCache` changes a few fields and, of the calls and the attempts, at most the
one that it is about. The lemmas here say so: the calls that stay, one operation after the other;
what an event makes of a call (`LiveCache.callStep_step`); and how many calls there are of a kind
after one of them has moved (`countP_modify`).
-/

namespace SlidingCache

/-! ## Counting in a list with one entry changed -/

theorem countP_modify {α : Type} {p : α → Bool} {f : α → α} {l : List α} {i : Nat} {x : α}
    (h : l[i]? = some x) :
    (l.modify i f).countP p + (if p x then 1 else 0) = l.countP p + (if p (f x) then 1 else 0) := by
  induction l generalizing i with
  | nil => simp at h
  | cons y r ih =>
    cases i with
    | zero =>
      obtain rfl : y = x := by simpa using h
      simp only [List.modify_zero_cons, List.countP_cons]
      omega
    | succ i =>
      have := ih (i := i) (by simpa using h)
      simp only [List.modify_succ_cons, List.countP_cons]
      omega

theorem countP_congr_getElem? {α : Type} {p : α → Bool} {l l' : List α}
    (h : ∀ i : Nat, l'[i]?.map p = l[i]?.map p) : l'.countP p = l.countP p := by
  have hmap : l'.map p = l.map p := List.ext_getElem? fun i => by simpa using h i
  have := congrArg (List.countP id) hmap
  simpa [List.countP_map] using this

theorem countP_pos_of_getElem? {α : Type} {p : α → Bool} {l : List α} {i : Nat} {x : α}
    (h : l[i]? = some x) (hx : p x) : 0 < l.countP p :=
  List.countP_pos_iff.2 ⟨x, List.mem_of_getElem? h, hx⟩

theorem eq_of_countP_eq_one {α : Type} {p : α → Bool} {l : List α} {i j : Nat} {x y : α}
    (h : l.countP p = 1) (hi : l[i]? = some x) (hx : p x) (hj : l[j]? = some y) (hy : p y) :
    i = j := by
  induction l generalizing i j with
  | nil => simp at hi
  | cons z r ih =>
    rw [List.countP_cons] at h
    cases i with
    | zero =>
      obtain rfl : z = x := by simpa using hi
      cases j with
      | zero => rfl
      | succ j =>
        have := countP_pos_of_getElem? (l := r) (i := j) (by simpa using hj) hy
        simp only [hx, if_true] at h
        omega
    | succ i =>
      have hr := countP_pos_of_getElem? (l := r) (i := i) (by simpa using hi) hx
      cases j with
      | zero =>
        obtain rfl : z = y := by simpa using hj
        simp only [hy, if_true] at h
        omega
      | succ j =>
        have hz : r.countP p = 1 := by split at h <;> omega
        exact congrArg _ (ih hz (by simpa using hi) (by simpa using hj))

/-- One entry is counted just when no other one counts. -/
theorem countP_eq_one_iff {α : Type} {p : α → Bool} {l : List α} {i : Nat} {x : α}
    (h : l[i]? = some x) (hx : p x) :
    l.countP p = 1 ↔ ∀ j y, l[j]? = some y → p y → j = i := by
  refine ⟨fun hone j y hj hy => eq_of_countP_eq_one hone hj hy h hx, fun honly => ?_⟩
  induction l generalizing i with
  | nil => simp at h
  | cons z r ih =>
    rw [List.countP_cons]
    cases i with
    | zero =>
      obtain rfl : z = x := by simpa using h
      have hr : r.countP p = 0 := by
        refine List.countP_eq_zero.2 fun y hmem hy => ?_
        obtain ⟨j, hj⟩ := List.getElem?_of_mem hmem
        cases honly (j + 1) y (by simpa using hj) hy
      simp only [hr, hx, if_true]
    | succ i =>
      have hz : ¬ p z := fun hz => by cases honly 0 z rfl hz
      have hr : r.countP p = 1 := ih (by simpa using h) fun j y hj hy =>
        Nat.succ.inj (honly (j + 1) y (by simpa using hj) hy)
      simp only [hr, hz, Bool.false_eq_true, if_false]

/-! ## Turns of the work -/

theorem ReadStage.rank_le (stage : ReadStage) : stage.rank ≤ 4 := by
  cases stage with
  | renewing payload found ttl last => cases last <;> simp [rank]
  | _ => simp [rank]

/-- Five turns are enough for any work. -/
theorem Work.rank_le {work : Work} : work.rank ≤ 5 := by
  cases work with
  | read stage => exact Nat.succ_le_succ stage.rank_le
  | write call => exact Nat.zero_le 5

namespace Request

variable {key : Text} {now : Instant}

/-- Only a read takes more than one turn. -/
theorem exists_stage_of_resume {work next : Work} {reply : Except StoreFault (work.call key).Reply}
    (h : (work.resume key now reply).next = .inl next) :
    ∃ stage stage', work = .read stage ∧ next = .read stage' := by
  cases work with
  | read stage =>
    simp only [Work.resume] at h
    cases hnext : (stage.resume key now reply).next with
    | inl stage' =>
      rw [hnext] at h
      cases h
      exact ⟨stage, stage', rfl, rfl⟩
    | inr result => rw [hnext] at h; cases h
  | write call => cases reply <;> cases h

theorem resume_read {stage stage' : ReadStage} {reply : Except StoreFault (stage.call key).Reply}
    (h : ((Work.read stage).resume key now reply).next = .inl (.read stage')) :
    (stage.resume key now reply).next = .inl stage' := by
  simp only [Work.resume] at h
  cases hnext : (stage.resume key now reply).next with
  | inl stage'' => rw [hnext] at h; cases h; rfl
  | inr result => rw [hnext] at h; cases h

end Request

namespace LiveCache

variable {σ : Type} {s : LiveCache σ} {c d : Nat} {call : Call}

/-! ## Calls under an operation -/

theorem calls_moveCall {stage : CallStage} :
    (s.moveCall c stage).calls[d]? =
      if c = d then s.calls[d]?.map fun call => { call with stage } else s.calls[d]? := by
  rw [moveCall, List.getElem?_modify]
  split <;> simp

theorem calls_finish {command : Command} {request : Request}
    {result : Except CacheFault (Option Bytes)} :
    (s.finish c command request result).calls[d]? =
      if c = d then s.calls[d]?.map fun call => { call with stage := .over (command.answer result) }
      else s.calls[d]? := calls_moveCall

theorem stage_of_moveCall {call' : Call} {stage : CallStage}
    (hc' : (s.moveCall c stage).calls[c]? = some call') : call'.stage = stage := by
  rw [calls_moveCall, if_pos rfl] at hc'
  obtain ⟨call, -, rfl⟩ := Option.map_eq_some_iff.1 hc'
  rfl

/-- A call that begins does not stay where it was. -/
theorem ne_created_of_begin {call' : Call} (hc' : (s.begin c).calls[c]? = some call') :
    call'.stage ≠ .created := by
  unfold begin at hc'
  split at hc'
  · rw [stage_of_moveCall hc']
    rintro ⟨⟩
  · split at hc'
    · rw [stage_of_moveCall hc']
      rintro ⟨⟩
    · split at hc'
      · rw [stage_of_moveCall hc']
        rintro ⟨⟩
      · rw [show call'.stage = .over _ from stage_of_moveCall hc']
        rintro ⟨⟩
  · rename_i hdrop hbegin
    rcases call' with ⟨command, hasTime, stage, _ | i⟩
    · rintro ⟨⟩
      exact hbegin _ _ hc'
    · rintro ⟨⟩
      exact hdrop _ _ _ hc'

theorem answer?_eq_some {answer : Except CacheFault Answer} (hcall : s.calls[c]? = some call)
    (h : s.answer? c = some answer) : call.stage = .over answer := by
  rw [answer?, hcall, Option.map_some] at h
  split at h
  · rename_i hstage
    cases h
    exact Option.some.inj hstage
  · cases h

/-- The stage of a call after a turn of its work. -/
def delivered (now : Instant) (command : Command) (handle : Handle) (request : Request)
    (reply : Except StoreFault request.call.Reply) : CallStage :=
  match (request.work.resume request.key now reply).next with
  | .inl work => .working handle { request with work }
  | .inr result => .over (command.answer result)

theorem calls_deliver {command : Command} {handle : Handle} {request : Request}
    {reply : Except StoreFault request.call.Reply} :
    (s.deliver c command handle request reply).calls[d]? =
      if c = d then
        s.calls[d]?.map fun call =>
          { call with stage := delivered s.now command handle request reply }
      else s.calls[d]? := by
  unfold deliver delivered
  cases h : (request.work.resume request.key s.now reply).next with
  | inl work => simp only [h]; exact calls_moveCall
  | inr result => simp only [h]; exact calls_finish

@[simp] theorem calls_attemptFor {context : LogContext Text} :
    (s.attemptFor context).2.calls = s.calls := by
  unfold attemptFor; split <;> rfl

@[simp] theorem calls_leave {a : Nat} : (s.leave a).calls = s.calls := by
  unfold leave; split <;> rfl

/-- What a caller gets from the attempt that it waited for. -/
def received (command : Command) (request : Request) : Outcome → CallStage
  | .opened handle => .working handle request
  | .failed fault => .over (command.answer (.error (.unopened fault)))
  | .cancelled => .over (command.answer (.error .cancelled))

/-! ## Calls under an event -/

/-- What an event makes of the call with number `c`. -/
inductive CallStep [Store σ] (s : LiveCache σ) (c : Nat) (call : Call) : Event → Call → Prop
  | rest {e : Event} : CallStep s c call e call
  | interrupt {i : Interruption} {interruption : Option Interruption} :
    CallStep s c call (.interrupt c i) { call with interruption }
  | drop {i : Interruption} : call.stage = .created → call.interruption = some i →
    CallStep s c call (.begin c) { call with stage := .dropped }
  | reject {fault : CacheFault} : call.stage = .created → call.interruption = none →
    call.command.request s.cache s.now = .error fault →
    CallStep s c call (.begin c) { call with stage := .over (call.command.answer (.error fault)) }
  | prepare {request : Request} : call.stage = .created → call.interruption = none →
    call.command.request s.cache s.now = .ok request →
    CallStep s c call (.begin c) { call with
      stage := if call.hasTime then .prepared request
        else .over (call.command.answer (.error .timedOut)) }
  | take {handle : Handle} {request : Request} : call.stage = .prepared request →
    call.interruption = none → s.handle = some handle →
    CallStep s c call (.ask c) { call with stage := .working handle request }
  | join {request : Request} : call.stage = .prepared request → call.interruption = none →
    s.handle = none →
    CallStep s c call (.ask c)
      { call with stage := .joined (s.current?.getD s.attempts.length) request }
  | wake {a : Nat} {request : Request} {attempt : Attempt} {outcome : Outcome} :
    call.stage = .joined a request → call.interruption = none → s.attempts[a]? = some attempt →
    attempt.stage = .ended outcome →
    CallStep s c call (.wake c) { call with stage := received call.command request outcome }
  | perform {handle : Handle} {request : Request} : call.stage = .working handle request →
    call.interruption = none →
    CallStep s c call (.perform c) { call with
      stage := delivered s.now call.command handle request
        (Store.perform s.now request.call s.store).1 }
  | refuse {handle : Handle} {request : Request} {fault : StoreFault} :
    call.stage = .working handle request → call.interruption = none →
    CallStep s c call (.refuse c fault)
      { call with stage := delivered s.now call.command handle request (.error fault) }
  /-- Interrupted before it has asked for the store. -/
  | turnBack {request : Request} {i : Interruption} : call.stage = .prepared request →
    call.interruption = some i →
    CallStep s c call (.ask c) { call with stage := .over (call.command.answer (.error i.fault)) }
  /-- Interrupted while it waited for an attempt. -/
  | leave {a : Nat} {request : Request} {i : Interruption} : call.stage = .joined a request →
    call.interruption = some i →
    CallStep s c call (.wake c) { call with stage := .over (call.command.answer (.error i.fault)) }
  /-- Interrupted with the store in hand. -/
  | breakOff {e : Event} {handle : Handle} {request : Request} {i : Interruption} :
    call.stage = .working handle request → call.interruption = some i →
    (e = .perform c ∨ ∃ fault, e = .refuse c fault) →
    CallStep s c call e { call with stage := .over (call.command.answer (.error i.fault)) }

theorem command_of_callStep [Store σ] {e : Event} {call' : Call} (h : CallStep s c call e call') :
    call'.command = call.command := by
  cases h <;> rfl

/-! One lemma for each event that is about a single call: the other calls stay, and its own call
takes one of the steps. -/

theorem calls_begin_of_ne (hne : d ≠ c) : (s.begin d).calls[c]? = s.calls[c]? := by
  unfold begin
  repeat' split
  all_goals simp [calls_moveCall, calls_finish, hne]

theorem calls_ask_of_ne (hne : d ≠ c) : (s.ask d).calls[c]? = s.calls[c]? := by
  unfold ask
  split
  · simp [calls_finish, hne]
  · split
    · simp [calls_moveCall, hne]
    · simp [calls_moveCall, hne]
  · rfl

theorem calls_wake_of_ne (hne : d ≠ c) : (s.wake d).calls[c]? = s.calls[c]? := by
  unfold wake
  repeat' split
  all_goals simp [calls_moveCall, calls_finish, hne]

theorem calls_perform_of_ne [Store σ] (hne : d ≠ c) : (s.perform d).calls[c]? = s.calls[c]? := by
  unfold perform
  repeat' split
  all_goals simp [calls_finish, calls_deliver, hne]

theorem calls_refuse_of_ne {fault : StoreFault} (hne : d ≠ c) :
    (s.refuse d fault).calls[c]? = s.calls[c]? := by
  unfold refuse
  repeat' split
  all_goals simp [calls_finish, calls_deliver, hne]

theorem callStep_begin [Store σ] (h : s.calls[c]? = some call) :
    ∃ call', (s.begin c).calls[c]? = some call' ∧ CallStep s c call (.begin c) call' := by
  rcases call with ⟨command, hasTime, stage, interruption⟩
  simp only [begin, h]
  cases stage with
  | created =>
    cases interruption with
    | some i => exact ⟨_, by simp [calls_moveCall, h], .drop rfl rfl⟩
    | none =>
      cases hr : command.request s.cache s.now with
      | error fault => exact ⟨_, by simp [calls_moveCall, h, hr], .reject rfl rfl hr⟩
      | ok request =>
        refine ⟨_, ?_, .prepare rfl rfl hr⟩
        cases hasTime <;> simp [calls_moveCall, calls_finish, h, hr]
  | _ => exact ⟨_, h, .rest⟩

theorem callStep_ask [Store σ] (h : s.calls[c]? = some call) :
    ∃ call', (s.ask c).calls[c]? = some call' ∧ CallStep s c call (.ask c) call' := by
  rcases call with ⟨command, hasTime, stage, interruption⟩
  simp only [ask, h]
  cases stage with
  | prepared request =>
    cases interruption with
    | some i => exact ⟨_, by simp [calls_finish, h], .turnBack rfl rfl⟩
    | none =>
      cases ho : s.handle with
      | some handle => exact ⟨_, by simp [calls_moveCall, h], .take rfl rfl ho⟩
      | none =>
        refine ⟨_, ?_, .join rfl rfl ho⟩
        cases hc : s.current? <;> simp [attemptFor, calls_moveCall, h, hc]
  | _ => exact ⟨_, h, .rest⟩

theorem callStep_wake [Store σ] (h : s.calls[c]? = some call) :
    ∃ call', (s.wake c).calls[c]? = some call' ∧ CallStep s c call (.wake c) call' := by
  rcases call with ⟨command, hasTime, stage, interruption⟩
  cases stage with
  | joined a request =>
    cases interruption with
    | some i => exact ⟨_, by simp [wake, calls_finish, h], .leave rfl rfl⟩
    | none =>
      cases ha : s.attempts[a]? with
      | none => exact ⟨_, by simp [wake, h, ha], .rest⟩
      | some attempt =>
        cases hs : attempt.stage with
        | ended outcome =>
          refine ⟨_, ?_, .wake rfl rfl ha hs⟩
          cases outcome <;> simp [wake, calls_moveCall, calls_finish, h, ha, hs, received]
        | _ => exact ⟨_, by simp [wake, h, ha, hs], .rest⟩
  | _ => exact ⟨_, by simp [wake, h], .rest⟩

theorem callStep_perform [Store σ] (h : s.calls[c]? = some call) :
    ∃ call', (s.perform c).calls[c]? = some call' ∧ CallStep s c call (.perform c) call' := by
  rcases call with ⟨command, hasTime, stage, interruption⟩
  simp only [perform, h]
  cases stage with
  | working handle request =>
    cases interruption with
    | some i => exact ⟨_, by simp [calls_finish, h], .breakOff rfl rfl (.inl rfl)⟩
    | none => exact ⟨_, by simp [calls_deliver, h], .perform rfl rfl⟩
  | _ => exact ⟨_, h, .rest⟩

theorem callStep_refuse [Store σ] {fault : StoreFault} (h : s.calls[c]? = some call) :
    ∃ call', (s.refuse c fault).calls[c]? = some call' ∧
      CallStep s c call (.refuse c fault) call' := by
  rcases call with ⟨command, hasTime, stage, interruption⟩
  simp only [refuse, h]
  cases stage with
  | working handle request =>
    cases interruption with
    | some i => exact ⟨_, by simp [calls_finish, h], .breakOff rfl rfl (.inr ⟨fault, rfl⟩)⟩
    | none => exact ⟨_, by simp [calls_deliver, h], .refuse rfl rfl⟩
  | _ => exact ⟨_, h, .rest⟩

theorem callStep_interrupt [Store σ] {i : Interruption} (h : s.calls[c]? = some call) :
    ∃ call', (s.interrupt c i).calls[c]? = some call' ∧
      CallStep s c call (.interrupt c i) call' := by
  rcases call with ⟨command, hasTime, stage, interruption⟩
  unfold interrupt
  simp only [List.getElem?_modify, h, if_true, Option.map_eq_map, Option.map_some]
  cases i <;> cases stage <;> exact ⟨_, rfl, .interrupt⟩

/-- **The steps of a call**: after any event it is the same call in a stage that the event
allows. -/
theorem callStep_step [Store σ] {e : Event} (h : s.calls[c]? = some call) :
    ∃ call', (s.step e).calls[c]? = some call' ∧ CallStep s c call e call' := by
  have rest : ∀ {s' : LiveCache σ}, s'.calls[c]? = s.calls[c]? →
      ∃ call', s'.calls[c]? = some call' ∧ CallStep s c call e call' :=
    fun hs => ⟨call, hs.trans h, .rest⟩
  cases e with
  | start command hasTime =>
    apply rest
    simp only [step, start]
    rw [List.getElem?_append_left (List.getElem?_eq_some_iff.1 h).1]
  | begin d =>
    by_cases hd : d = c
    · subst hd; exact callStep_begin h
    · exact rest (calls_begin_of_ne hd)
  | ask d =>
    by_cases hd : d = c
    · subst hd; exact callStep_ask h
    · exact rest (calls_ask_of_ne hd)
  | wake d =>
    by_cases hd : d = c
    · subst hd; exact callStep_wake h
    · exact rest (calls_wake_of_ne hd)
  | perform d =>
    by_cases hd : d = c
    · subst hd; exact callStep_perform h
    · exact rest (calls_perform_of_ne hd)
  | refuse d fault =>
    by_cases hd : d = c
    · subst hd; exact callStep_refuse h
    · exact rest (calls_refuse_of_ne hd)
  | interrupt d i =>
    by_cases hd : d = c
    · subst hd; exact callStep_interrupt h
    · apply rest
      simp [step, interrupt, hd]
  | beginAttempt a =>
    apply rest
    simp only [step, beginAttempt]
    split <;> rfl
  | endAttempt a outcome =>
    apply rest
    simp only [step, endAttempt]
    repeat' split
    all_goals rfl
  | release a =>
    apply rest
    simp only [step, release]
    split <;> rfl
  | close =>
    apply rest
    simp only [step, close]
    split <;> rfl
  | advance time =>
    apply rest
    simp only [step]
    split <;> rfl
  | rival call' => exact rest rfl

section
variable {stage : CallStage} {command : Command} {request : Request}

@[simp] theorem length_calls_moveCall : (s.moveCall c stage).calls.length = s.calls.length := by
  simp [moveCall]

@[simp] theorem length_calls_finish {result : Except CacheFault (Option Bytes)} :
    (s.finish c command request result).calls.length = s.calls.length := by
  simp [finish, say]

@[simp] theorem length_calls_deliver {handle : Handle}
    {reply : Except StoreFault request.call.Reply} :
    (s.deliver c command handle request reply).calls.length = s.calls.length := by
  unfold deliver
  cases h : (request.work.resume request.key s.now reply).next <;> simp [h, say]

end

/-- Only the start of a call makes the calls more. -/
theorem length_calls_step [Store σ] {e : Event}
    (he : ∀ command hasTime, e ≠ .start command hasTime) :
    (s.step e).calls.length = s.calls.length := by
  cases e with
  | start command hasTime => exact absurd rfl (he command hasTime)
  | ask d =>
    simp only [step, ask]
    split
    · simp
    · split <;> simp
    · rfl
  | wake d =>
    simp only [step, wake]
    repeat' split
    all_goals simp
  | _ =>
    simp only [step, begin, perform, refuse, interrupt, beginAttempt, endAttempt, release, close]
    repeat' split
    all_goals simp [say, moveAttempt, stop]

/-- A call after an event was one before, or the event has started it. -/
theorem exists_call_of_step [Store σ] {e : Event} {call' : Call}
    (h : (s.step e).calls[c]? = some call') :
    (∃ call, s.calls[c]? = some call ∧ CallStep s c call e call') ∨
      ∃ command hasTime, e = .start command hasTime ∧ c = s.calls.length ∧
        call' = { command, hasTime } := by
  cases hc : s.calls[c]? with
  | some call =>
    obtain ⟨call'', h', hstep⟩ := callStep_step (e := e) hc
    obtain rfl : call'' = call' := Option.some.inj (h'.symm.trans h)
    exact .inl ⟨call, rfl, hstep⟩
  | none =>
    right
    have hlen : s.calls.length ≤ c := List.getElem?_eq_none_iff.1 hc
    by_cases he : ∃ command hasTime, e = .start command hasTime
    · obtain ⟨command, hasTime, rfl⟩ := he
      simp only [step, start] at h
      rw [List.getElem?_append_right hlen, List.getElem?_singleton] at h
      split at h
      · exact ⟨command, hasTime, rfl, by omega, (Option.some.inj h).symm⟩
      · cases h
    · have hlt := (List.getElem?_eq_some_iff.1 h).1
      rw [length_calls_step fun command hasTime hs => he ⟨command, hasTime, hs⟩] at hlt
      omega

end LiveCache

end SlidingCache
