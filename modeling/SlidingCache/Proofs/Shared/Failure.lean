import SlidingCache.Proofs.Live.SingleFlight
import SlidingCache.Proofs.Shared.Environment

/-!
# Operations that fail

An operation may be refused for its key or its options, run out of time, be cancelled, find the
store unopened or meet a fault of the store, at any of its turns and whatever others do in between.
However it fails, none of its turns, before and after, changes anything that is live
(`LiveCache.failed_run`). A refusal does not even leave a trace in the journal or start an attempt.

An operation has at most one turn that changes the store, and with this turn it ends well
(`LiveCache.slot?_step_own`). When an operation has ended, what its caller is told is final
(`LiveCache.hasEnded_run`) and nothing is left of it (`LiveCache.step_of_isOver`), so nothing that it
had asked for is done later.
-/

namespace SlidingCache

open LawfulStore ExactStore

/-- The call whose turn an event is, or that it interrupts. -/
def Event.call? : Event → Option Nat
  | .begin c | .ask c | .wake c | .perform c | .refuse c _ | .interrupt c _ => some c
  | _ => none

/-! ## Turns of the work -/

/-- A call changes what is live only if it is let through, and a fetch does not. -/
theorem Performed.eq_or_isOk {now : Instant} {view view' : View} {last last' : Revision}
    {call : StoreCall} {reply : Except StoreFault call.Reply}
    (h : Performed now view last call reply view' last') :
    view' = view ∨ reply.isOk ∧ call.method ≠ .get := by
  cases h with
  | refused | got => exact .inl rfl
  | put | updated | deleted => exact .inr ⟨rfl, nofun⟩

namespace Work

variable {key : Text} {now : Instant} {work : Work}

/-- Work ends well with the first call that is let through, unless it was a fetch. -/
theorem next_of_isOk {reply : Except StoreFault (work.call key).Reply} (hok : reply.isOk)
    (hmethod : (work.call key).method ≠ .get) :
    ∃ payload, (work.resume key now reply).next = .inr (.ok payload) := by
  cases reply with
  | error fault => cases hok
  | ok answer =>
    cases work with
    | write call => exact ⟨none, rfl⟩
    | read stage =>
      cases stage with
      | fetching | refetching => exact absurd rfl hmethod
      | deleting found => exact ⟨none, rfl⟩
      | renewing payload | deletingAgain payload => exact ⟨some payload, rfl⟩

/-- No fault of the work is a refusal. -/
theorem isRefusal_of_next {reply : Except StoreFault (work.call key).Reply} {fault : CacheFault}
    (h : (work.resume key now reply).next = .inr (.error fault)) : fault.isRefusal = false := by
  cases work with
  | write call =>
    cases reply with
    | ok => cases h
    | error e =>
      cases h
      rfl
  | read stage =>
    have hleads : ReadStage.Leads key now stage reply (stage.resume key now reply).next :=
      ReadStage.leads_resume stage reply
    simp only [resume] at h
    cases hnext : (stage.resume key now reply).next with
    | inl next =>
      rw [hnext] at h
      cases h
    | inr result =>
      rw [hnext] at h hleads
      cases h
      cases hleads with
      | unread => rfl
      | failed _ hno => exact hno

end Work

theorem Command.eq_error_of_answer {command : Command} {result : Except CacheFault (Option Bytes)}
    {fault : CacheFault} (h : command.answer result = .error fault) : result = .error fault := by
  cases result with
  | ok payload =>
    cases command with
    | tryGet => cases payload <;> cases h
    | _ => cases h
  | error e =>
    cases command with
    | tryGet =>
      -- only a cancellation is raised
      cases e <;> cases h
      rfl
    | _ => exact congrArg Except.error (Except.error.inj h)

/-- What a call has become when its operation has ended with a result. -/
def Call.HasEnded (call : Call) (result : Except CacheFault (Option Bytes)) : Prop :=
  call.stage = .over (call.command.answer result) ∨
    call.stage = .dropped ∧ result = .error .cancelled

theorem Call.HasEnded.isOver {call : Call} {result : Except CacheFault (Option Bytes)}
    (h : call.HasEnded result) : call.isOver := by
  rcases h with hstage | ⟨hstage, -⟩ <;> rw [Call.isOver, hstage]

theorem Interruption.isRefusal_fault (i : Interruption) : i.fault.isRefusal = false := by
  cases i <;> rfl

namespace LiveCache

variable {σ : Type} [Store σ] {s : LiveCache σ} {c : Nat} {e : Event} {call : Call}
  {result : Except CacheFault (Option Bytes)}

/-! ## How operations end -/

/-- The result with which an event ends the operation of a call, whatever the caller is told of it
(`Command.answer`). -/
inductive Ends (s : LiveCache σ) (c : Nat) : Event → Except CacheFault (Option Bytes) → Prop
  /-- Cancelled before it began. -/
  | drop {command hasTime i} : s.calls[c]? = some ⟨command, hasTime, .created, some i⟩ →
    Ends s c (.begin c) (.error .cancelled)
  | reject {command hasTime fault} : s.calls[c]? = some ⟨command, hasTime, .created, none⟩ →
    command.request s.cache s.now = .error fault → Ends s c (.begin c) (.error fault)
  /-- Without time from the start. -/
  | late {command request} : s.calls[c]? = some ⟨command, false, .created, none⟩ →
    command.request s.cache s.now = .ok request → Ends s c (.begin c) (.error .timedOut)
  /-- Interrupted before it has asked for the store. -/
  | turnBack {command hasTime request i} :
    s.calls[c]? = some ⟨command, hasTime, .prepared request, some i⟩ →
    Ends s c (.ask c) (.error i.fault)
  /-- Interrupted while it waited for an attempt to open the store. -/
  | leave {command hasTime a request i} :
    s.calls[c]? = some ⟨command, hasTime, .joined a request, some i⟩ →
    Ends s c (.wake c) (.error i.fault)
  | unopened {command hasTime a request attempt fault} :
    s.calls[c]? = some ⟨command, hasTime, .joined a request, none⟩ →
    s.attempts[a]? = some attempt → attempt.stage = .ended (.failed fault) →
    Ends s c (.wake c) (.error (.unopened fault))
  /-- The attempt that it waited for was cancelled. -/
  | abandoned {command hasTime a request attempt} :
    s.calls[c]? = some ⟨command, hasTime, .joined a request, none⟩ →
    s.attempts[a]? = some attempt → attempt.stage = .ended .cancelled →
    Ends s c (.wake c) (.error .cancelled)
  /-- Interrupted with the store in hand. -/
  | breakOff {e command hasTime handle request i} :
    s.calls[c]? = some ⟨command, hasTime, .working handle request, some i⟩ →
    (e = .perform c ∨ ∃ fault, e = .refuse c fault) → Ends s c e (.error i.fault)
  | perform {command hasTime handle request result} :
    s.calls[c]? = some ⟨command, hasTime, .working handle request, none⟩ →
    (request.work.resume request.key s.now (Store.perform s.now request.call s.store).1).next =
      .inr result → Ends s c (.perform c) result
  | refuse {command hasTime handle request fault result} :
    s.calls[c]? = some ⟨command, hasTime, .working handle request, none⟩ →
    (request.work.resume request.key s.now (.error fault)).next = .inr result →
    Ends s c (.refuse c fault) result

/-- A call is under way until its operation ends. -/
theorem Ends.exists_call (h : s.Ends c e result) :
    ∃ call, s.calls[c]? = some call ∧ call.isOver = false := by
  cases h <;> exact ⟨_, ‹_›, rfl⟩

omit [Store σ] in
theorem delivered_of_inr {now : Instant} {command : Command} {handle : Handle} {request : Request}
    {reply : Except StoreFault request.call.Reply}
    (h : (request.work.resume request.key now reply).next = .inr result) :
    delivered now command handle request reply = .over (command.answer result) := by
  rw [delivered, h]

omit [Store σ] in
theorem exists_result_of_delivered {now : Instant} {handle : Handle} {request : Request}
    {reply : Except StoreFault request.call.Reply}
    (hstage : call.stage = delivered now call.command handle request reply) (hover : call.isOver) :
    ∃ result, (request.work.resume request.key now reply).next = .inr result := by
  cases hnext : (request.work.resume request.key now reply).next with
  | inl work =>
    rw [Call.isOver, hstage, delivered, hnext] at hover
    cases hover
  | inr result => exact ⟨result, rfl⟩

/-- What the caller is told. -/
theorem Ends.told (h : s.Ends c e result) :
    ∃ call, (s.step e).calls[c]? = some call ∧ call.HasEnded result := by
  cases h with
  | drop hc => exact ⟨_, by simp [step, begin, hc, calls_moveCall]; rfl, .inr ⟨rfl, rfl⟩⟩
  | reject hc hr => exact ⟨_, by simp [step, begin, hc, hr, calls_moveCall]; rfl, .inl rfl⟩
  | late hc hr => exact ⟨_, by simp [step, begin, hc, hr, calls_finish]; rfl, .inl rfl⟩
  | turnBack hc => exact ⟨_, by simp [step, ask, hc, calls_finish]; rfl, .inl rfl⟩
  | leave hc => exact ⟨_, by simp [step, wake, hc, calls_finish]; rfl, .inl rfl⟩
  | unopened hc ha hstage | abandoned hc ha hstage =>
    exact ⟨_, by simp [step, wake, hc, ha, hstage, calls_finish]; rfl, .inl rfl⟩
  | breakOff hc he =>
    rcases he with rfl | ⟨fault, rfl⟩
    · exact ⟨_, by simp [step, LiveCache.perform, hc, calls_finish]; rfl, .inl rfl⟩
    · exact ⟨_, by simp [step, LiveCache.refuse, hc, calls_finish]; rfl, .inl rfl⟩
  | perform hc hnext =>
    exact ⟨_, by simp [step, LiveCache.perform, hc, calls_deliver]; rfl,
      .inl (delivered_of_inr hnext)⟩
  | refuse hc hnext =>
    exact ⟨_, by simp [step, LiveCache.refuse, hc, calls_deliver]; rfl,
      .inl (delivered_of_inr hnext)⟩

/-- **No operation ends in another way.** -/
theorem exists_ends {call' : Call} (hc : s.calls[c]? = some call) (hopen : call.isOver = false)
    (hc' : (s.step e).calls[c]? = some call') (hover : call'.isOver) :
    ∃ result, s.Ends c e result ∧ call'.HasEnded result := by
  obtain ⟨call'', hc'', hstep⟩ := callStep_step (e := e) hc
  obtain rfl := Option.some.inj (hc''.symm.trans hc')
  rcases call with ⟨command, hasTime, stage, interruption⟩
  cases hstep with
  | rest | interrupt => exact absurd hover (Bool.eq_false_iff.1 hopen)
  | drop hstage hi =>
    cases hstage
    cases hi
    exact ⟨_, .drop hc, .inr ⟨rfl, rfl⟩⟩
  | reject hstage hi hr =>
    cases hstage
    cases hi
    exact ⟨_, .reject hc hr, .inl rfl⟩
  | prepare hstage hi hr =>
    cases hstage
    cases hi
    cases hasTime with
    | true => cases hover
    | false => exact ⟨_, .late hc hr, .inl rfl⟩
  | take | join => cases hover
  | @wake a request attempt outcome hstage hi ha hended =>
    cases hstage
    cases hi
    cases outcome with
    | opened => cases hover
    | failed fault => exact ⟨_, .unopened hc ha hended, .inl rfl⟩
    | cancelled => exact ⟨_, .abandoned hc ha hended, .inl rfl⟩
  | perform hstage hi =>
    cases hstage
    cases hi
    obtain ⟨result, hnext⟩ := exists_result_of_delivered rfl hover
    exact ⟨result, .perform hc hnext, .inl (delivered_of_inr hnext)⟩
  | refuse hstage hi =>
    cases hstage
    cases hi
    obtain ⟨result, hnext⟩ := exists_result_of_delivered rfl hover
    exact ⟨result, .refuse hc hnext, .inl (delivered_of_inr hnext)⟩
  | turnBack hstage hi =>
    cases hstage
    cases hi
    exact ⟨_, .turnBack hc, .inl rfl⟩
  | leave hstage hi =>
    cases hstage
    cases hi
    exact ⟨_, .leave hc, .inl rfl⟩
  | breakOff hstage hi he =>
    cases hstage
    cases hi
    exact ⟨_, .breakOff hc he, .inl rfl⟩

/-! ## Turns of an operation -/

/-- What a caller is told is final. -/
theorem hasEnded_step (hc : s.calls[c]? = some call) (hended : call.HasEnded result) (e : Event) :
    ∃ call', (s.step e).calls[c]? = some call' ∧ call'.HasEnded result := by
  obtain ⟨call', hc', hstep⟩ := callStep_step (e := e) hc
  have hover := hended.isOver
  refine ⟨call', hc', ?_⟩
  cases hstep with
  | rest | interrupt => exact hended
  | drop hstage | reject hstage | prepare hstage | take hstage | join hstage | wake hstage
  | perform hstage | refuse hstage | turnBack hstage | leave hstage | breakOff hstage =>
    rw [Call.isOver, hstage] at hover
    cases hover

theorem hasEnded_run (hc : s.calls[c]? = some call) (hended : call.HasEnded result)
    (events : List Event) :
    ∃ call', (s.run events).calls[c]? = some call' ∧ call'.HasEnded result := by
  induction events generalizing s call with
  | nil => exact ⟨call, hc, hended⟩
  | cons e events ih =>
    obtain ⟨call', hc', hended'⟩ := hasEnded_step hc hended e
    exact ih hc' hended'

/-- An operation that is over has ended at some event. -/
theorem exists_ends_run {events : List Event} (hc : s.calls[c]? = some call)
    (hopen : call.isOver = false) (hc' : (s.run events).calls[c]? = some call')
    (hover : call'.isOver) : ∃ before e after result, events = before ++ e :: after ∧
      (s.run before).Ends c e result ∧ call'.HasEnded result := by
  induction events generalizing s call with
  | nil =>
    cases hc.symm.trans hc'
    rw [hopen] at hover
    cases hover
  | cons e events ih =>
    obtain ⟨call'', hc'', -⟩ := callStep_step (e := e) hc
    cases hnext : call''.isOver with
    | false =>
      obtain ⟨before, e', after, result, rfl, hends⟩ := ih hc'' hnext hc'
      exact ⟨e :: before, e', after, result, rfl, hends⟩
    | true =>
      obtain ⟨result, hends, hended⟩ := exists_ends hc hopen hc'' hnext
      obtain ⟨last, hlast, hended⟩ := hasEnded_run hc'' hended events
      cases hlast.symm.trans hc'
      exact ⟨[], e, events, result, rfl, hends, hended⟩

/-- **Nothing is left of an operation that has ended**, nor is there anything of a call that has not
come. -/
theorem step_of_isOver (hover : (s.calls[c]?).all Call.isOver) (hown : e.call? = some c) :
    s.step e = s := by
  cases e with
  | begin d | ask d | wake d | perform d | refuse d =>
    obtain rfl : d = c := Option.some.inj hown
    cases hc : s.calls[d]? with
    | none => simp [step, begin, ask, wake, LiveCache.perform, LiveCache.refuse, hc]
    | some call =>
      rcases call with ⟨command, hasTime, stage, interruption⟩
      rw [hc] at hover
      cases stage with
      | created | prepared | joined | working => cases hover
      | _ => simp [step, begin, ask, wake, LiveCache.perform, LiveCache.refuse, hc]
  | interrupt d i =>
    obtain rfl : d = c := Option.some.inj hown
    have hcalls : (s.interrupt d i).calls = s.calls := by
      refine List.ext_getElem? fun d' => ?_
      rw [interrupt, List.getElem?_modify]
      split
      · rename_i hd
        subst hd
        cases hc : s.calls[d]? with
        | none => rfl
        | some call =>
          rcases call with ⟨command, hasTime, stage, interruption⟩
          rw [hc] at hover
          cases stage with
          | created | prepared | joined | working => cases hover
          | _ => cases i <;> rfl
      · exact id_map _
    exact congrArg (fun calls => { s with calls }) hcalls
  | start | beginAttempt | endAttempt | release | close | advance | rival => cases hown

/-- A turn of an operation that changes what is live ends it, and not with a fault. -/
theorem slot?_step_own [LawfulStore σ] [ExactStore σ] (hs : Valid s.store)
    (hown : e.call? = some c) :
    (∀ later, s.now.utcUs ≤ later.utcUs → slot? (s.step e).store later = slot? s.store later) ∨
      ∃ payload, s.Ends c e (.ok payload) ∧ e = .perform c := by
  cases ha : s.access? e with
  | none =>
    have hstore : (s.step e).store = s.store :=
      congrArg Prod.fst (surroundings_step ha (by rintro time rfl; cases hown))
    exact .inl fun later _ => by rw [hstore]
  | some a =>
    obtain ⟨-, hstore, -⟩ := step_of_access? ha
    cases e with
    | perform d =>
      obtain rfl : d = c := Option.some.inj hown
      simp only [access?] at ha
      split at ha
      · rename_i command hasTime handle request hc
        cases ha
        rcases (performed s.now request.call hs).eq_or_isOk with hsame | ⟨hok, hmethod⟩
        · exact .inl fun later hle => hstore ▸ slot?_of_unchanged hs hsame hle
        · obtain ⟨payload, hnext⟩ := Work.next_of_isOk hok hmethod
          exact .inr ⟨payload, .perform hc hnext, rfl⟩
      · cases ha
    | rival => cases hown
    | _ => cases ha

theorem Ends.ne_error {payload : Option Bytes} {fault : CacheFault}
    (h : s.Ends c (.perform c) (.ok payload)) : ¬ s.Ends c (.perform c) (.error fault) := by
  intro h'
  cases h with
  | perform hc hnext =>
    cases h' with
    | breakOff hc' => cases hc.symm.trans hc'
    | perform hc' hnext' =>
      cases hc.symm.trans hc'
      cases hnext.symm.trans hnext'

/-! ## Refusals -/

theorem Ends.of_isRefusal {fault : CacheFault} (h : s.Ends c e (.error fault))
    (hrefusal : fault.isRefusal) : ∃ command hasTime,
      s.calls[c]? = some ⟨command, hasTime, .created, none⟩ ∧
        s.step e = s.moveCall c (.over (command.answer (.error fault))) := by
  cases h with
  | reject hc hr => exact ⟨_, _, hc, by simp [step, begin, hc, hr]⟩
  | turnBack | leave | breakOff =>
    rw [Interruption.isRefusal_fault] at hrefusal
    cases hrefusal
  | perform hc hnext | refuse hc hnext =>
    rw [Work.isRefusal_of_next hnext] at hrefusal
    cases hrefusal
  | _ => cases hrefusal

/-- No call begins twice. -/
theorem created_of_step {call' : Call} (hc : s.calls[c]? = some call)
    (hc' : (s.step e).calls[c]? = some call') (hcreated : call'.stage = .created) :
    call.stage = .created := by
  obtain ⟨call'', hc'', hstep⟩ := callStep_step (e := e) hc
  obtain rfl := Option.some.inj (hc''.symm.trans hc')
  cases hstep with
  | rest | interrupt => exact hcreated
  | drop hstage | reject hstage | prepare hstage => exact hstage
  | take | join | turnBack | leave | breakOff => cases hcreated
  | @wake _ _ _ outcome => cases outcome <;> cases hcreated
  | perform | refuse =>
    simp only [delivered] at hcreated
    split at hcreated <;> cases hcreated

theorem created_of_run {call' : Call} {events : List Event} (hc : s.calls[c]? = some call)
    (hc' : (s.run events).calls[c]? = some call') (hcreated : call'.stage = .created) :
    call.stage = .created := by
  induction events generalizing s call with
  | nil =>
    obtain rfl := Option.some.inj (hc.symm.trans hc')
    exact hcreated
  | cons e events ih =>
    obtain ⟨call'', hc'', -⟩ := callStep_step (e := e) hc
    exact created_of_step hc hc'' (ih hc'' hc')

/-- Until a call begins it can only be interrupted, of which nobody sees anything. -/
theorem step_of_created {call' : Call} (hc : s.calls[c]? = some call)
    (hown : e.call? = some c) (hc' : (s.step e).calls[c]? = some call')
    (hcreated : call'.stage = .created) : { s.step e with calls := s.calls } = s := by
  have hcreated' := created_of_step hc hc' hcreated
  rcases call with ⟨command, hasTime, stage, interruption⟩
  obtain rfl : stage = .created := hcreated'
  cases e with
  | interrupt => rfl
  | ask d | wake d | perform d | refuse d =>
    obtain rfl : d = c := Option.some.inj hown
    simp [step, ask, wake, LiveCache.perform, LiveCache.refuse, hc]
  | begin d =>
    obtain rfl : d = c := Option.some.inj hown
    exact absurd hcreated (ne_created_of_begin hc')
  | start | beginAttempt | endAttempt | release | close | advance | rival => cases hown

/-! ## Runs -/

/-- What a turn of an operation leaves alone that is to fail with a fault. -/
structure Untouched [LawfulStore σ] (s : LiveCache σ) (e : Event) (fault : CacheFault) : Prop where
  /-- What is live under any key, its value, its revision and its deadline. -/
  live {later : Instant} : s.now.utcUs ≤ later.utcUs →
    slot? (s.step e).store later = slot? s.store later
  /-- All but the stage of the call: no attempt is started or joined, and nothing is counted. -/
  rest : fault.isRefusal → { s.step e with calls := s.calls } = s

variable [LawfulStore σ] [ExactStore σ] {fault : CacheFault}

/-- The turn that ends an operation with a fault. -/
theorem Ends.untouched (h : s.Ends c e (.error fault)) (hs : Valid s.store)
    (hown : e.call? = some c) : s.Untouched e fault where
  live hle := by
    rcases slot?_step_own hs hown with hsame | ⟨payload, hends, rfl⟩
    · exact hsame _ hle
    · exact absurd h hends.ne_error
  rest hrefusal := by
    obtain ⟨command, hasTime, -, hstep⟩ := h.of_isRefusal hrefusal
    rw [hstep]
    rfl

/-- The turns before. -/
theorem Ends.untouched_before {own : Event} {between : List Event}
    (h : ((s.step own).run between).Ends c e (.error fault)) (hs : Valid s.store)
    (hown : own.call? = some c) : s.Untouched own fault where
  live hle := by
    rcases slot?_step_own hs hown with hsame | ⟨payload, hends, -⟩
    · exact hsame _ hle
    · -- it would have ended well by then
      obtain ⟨call, hc, hended⟩ := hends.told
      obtain ⟨call', hc', hended⟩ := hasEnded_run hc hended between
      obtain ⟨call'', hc'', hopen⟩ := h.exists_call
      obtain rfl := Option.some.inj (hc'.symm.trans hc'')
      exact absurd hended.isOver (Bool.eq_false_iff.1 hopen)
  rest hrefusal := by
    obtain ⟨command, hasTime, hcreated, -⟩ := h.of_isRefusal hrefusal
    cases hc : s.calls[c]? with
    | none => rw [step_of_isOver (by rw [hc]; rfl) hown]
    | some call =>
      obtain ⟨call', hc', -⟩ := callStep_step (e := own) hc
      exact step_of_created hc hown hc' (created_of_run hc' hcreated rfl)

omit [ExactStore σ] in
/-- The turns after. -/
theorem Ends.untouched_after {own : Event} (h : s.Ends c e (.error fault)) (between : List Event)
    (hown : own.call? = some c) : ((s.step e).run between).Untouched own fault := by
  obtain ⟨call, hc, hended⟩ := h.told
  obtain ⟨call', hc', hended⟩ := hasEnded_run hc hended between
  have hsame := step_of_isOver (by rw [hc']; exact hended.isOver) hown
  exact {
    live := fun _ => by rw [hsame]
    rest := fun _ => by rw [hsame] }

/-- All turns. -/
theorem Ends.untouched_run {own : Event} {before after past future : List Event}
    (h : (s.run before).Ends c e (.error fault)) (hs : Valid s.store)
    (heq : before ++ e :: after = past ++ own :: future) (hown : own.call? = some c) :
    (s.run past).Untouched own fault := by
  rcases List.append_eq_append_iff.1 heq with ⟨between, rfl, hrest⟩ | ⟨between, rfl, hrest⟩
  · cases between with
    | nil =>
      obtain ⟨rfl, -⟩ := List.cons.inj hrest
      rw [List.append_nil]
      exact h.untouched (valid_run hs before) hown
    | cons e' between =>
      obtain ⟨rfl, -⟩ := List.cons.inj hrest
      rw [run_append, run_cons]
      exact h.untouched_after between hown
  · cases between with
    | nil =>
      obtain ⟨rfl, -⟩ := List.cons.inj hrest
      rw [List.append_nil] at h
      exact h.untouched (valid_run hs past) hown
    | cons e' between =>
      obtain ⟨rfl, -⟩ := List.cons.inj hrest
      rw [run_append, run_cons] at h
      exact h.untouched_before (valid_run hs past) hown

/-- **A failed operation has no effect, now or later.** Whatever else happens to a new cache in
memory and its callers, and however an operation comes to fail among it, none of its turns in the
whole of the run changes what is live. -/
theorem failed_run (cache : Cache) (backend : Backend) (now : Instant) {own : Event}
    {before after past future : List Event}
    (h : (run { cache, backend, store := ({} : MemoryStore), now } before).Ends c e (.error fault))
    (heq : before ++ e :: after = past ++ own :: future) (hown : own.call? = some c) :
    (run { cache, backend, store := ({} : MemoryStore), now } past).Untouched own fault :=
  h.untouched_run MemoryStore.valid_default heq hown

/-- A set that runs out of time while it waits for the store, for which another call waits too. -/
def untilTimeout : List Event :=
  [.start (.set "k" [1] {}) true, .start (.get "k") true, .begin 0, .begin 1, .ask 0, .ask 1,
    .beginAttempt 0, .interrupt 0 .timeout]

/-- The store is opened after all. -/
def openedLate : List Event := [.endAttempt 0 (.opened 0), .release 0, .wake 1, .perform 1]

/-- The set is not made up for when the store is open. -/
theorem failed_run_openedLate :
    let s₀ : LiveCache MemoryStore := { backend := ⟨"cache", false⟩, store := {}, now := default }
    let s := s₀.run (untilTimeout ++ .wake 0 :: openedLate)
    (s₀.run untilTimeout).Ends 0 (.wake 0) (.error .timedOut) ∧ s.isOpen ∧
      s.Untouched (.perform 0) .timedOut := by
  intro s₀ s
  have hcheck : ((s₀.run untilTimeout).calls[0]?.any fun call =>
      call.isWaiting && call.interruption == some .timeout) = true := by decide +kernel
  obtain ⟨call, hc, hcall⟩ := (Option.any_eq_true _ _).1 hcheck
  obtain ⟨hwait, hinterruption⟩ := Bool.and_eq_true_iff.1 hcall
  have hends : (s₀.run untilTimeout).Ends 0 (.wake 0) (.error .timedOut) := by
    obtain ⟨command, hasTime, stage, interruption⟩ := call
    obtain rfl : interruption = some .timeout := eq_of_beq hinterruption
    cases stage with
    | joined a request => exact .leave hc
    | _ => cases hwait
  have heq : untilTimeout ++ .wake 0 :: (openedLate ++ [.perform 0]) =
    (untilTimeout ++ .wake 0 :: openedLate) ++ .perform 0 :: [] := rfl
  exact ⟨hends, by decide +kernel, failed_run {} ⟨"cache", false⟩ default hends heq rfl⟩

end LiveCache

end SlidingCache
