import SlidingCache.Proofs.Live.Deserted
import SlidingCache.Proofs.Live.Lenient
import SlidingCache.Proofs.Live.Turns
import SlidingCache.Proofs.Shared.Failure

/-!
# What a lenient read answers

A lenient read that nobody cancels comes to an end, in nine turns at most, and answers whether it
has hit and what the buffer holds then: the payload behind what was there, exactly when a read in
its place would have got the payload, and else what was there (`LiveCache.lenientRead_run`).

There is one exception. A close stops the attempt to open the store that the read waits for, or the
attempt gives itself up, and the read is told of it as if it had been cancelled itself, which is no
fault that counts as a miss. Then it raises (`LiveCache.lenientRead_closedUpon`).
-/

namespace SlidingCache

/-! ## Cancellations are no faults of the work -/

namespace ReadStage

variable {key : Text} {now : Instant}

theorem renew_ne_cancelled {notices : List Notice} {payload : Bytes} {found : Held} {entry : Entry}
    {last : Bool} :
    (renew notices payload found entry last now).next ≠ .inr (.error .cancelled) := by
  unfold renew
  repeat' split
  all_goals rintro ⟨⟩

theorem resume_ne_cancelled (stage : ReadStage) (reply : Except StoreFault (stage.call key).Reply) :
    (stage.resume key now reply).next ≠ .inr (.error .cancelled) := by
  cases stage with
  | fetching =>
    cases reply with
    | error fault => rintro ⟨⟩
    | ok found? =>
      simp only [resume, fetched]
      repeat' split
      all_goals first | exact renew_ne_cancelled | rintro ⟨⟩
  | refetching payload =>
    cases reply with
    | error fault => rintro ⟨⟩
    | ok found? =>
      simp only [resume, refetched]
      repeat' split
      all_goals first | exact renew_ne_cancelled | rintro ⟨⟩
  | deleting | deletingAgain =>
    simp only [resume]
    split <;> rintro ⟨⟩
  | renewing payload found ttl last =>
    cases reply with
    | ok revision => rintro ⟨⟩
    | error fault =>
      cases fault with
      | conflict => cases last <;> rintro ⟨⟩
      | _ => rintro ⟨⟩

end ReadStage

theorem Work.resume_ne_cancelled {key : Text} {now : Instant} (work : Work)
    (reply : Except StoreFault (work.call key).Reply) :
    (work.resume key now reply).next ≠ .inr (.error .cancelled) := by
  cases work with
  | write call => cases reply <;> rintro ⟨⟩
  | read stage =>
    intro h
    simp only [resume] at h
    cases hnext : (stage.resume key now reply).next with
    | inl next => rw [hnext] at h; cases h
    | inr result =>
      rw [hnext] at h
      cases h
      exact stage.resume_ne_cancelled reply hnext

theorem Command.request_tryGet_ne_cancelled {key : Text} {buffer : Bytes} {cache : Cache}
    {now : Instant} : (tryGet key buffer).request cache now ≠ .error .cancelled := by
  intro h
  obtain hkey | ⟨storeKey, -, hwork⟩ := Chain.bind_eq_error.1 h
  · obtain ⟨e, -, he⟩ := Chain.mapError_eq_error.1 hkey
    cases he
  · cases hwork

/-! ## Calls that nobody cancels -/

/-- How a call stands that nobody has cancelled. -/
structure Call.Spared (call : Call) : Prop where
  interruption : call.interruption ≠ some .cancel
  created : call.stage = .created → call.interruption = none
  dropped : call.stage ≠ .dropped

def CallStage.isBegun : CallStage → Bool
  | .created | .dropped => false
  | _ => true

theorem Call.spared_new (command : Command) (hasTime : Bool) :
    Call.Spared ⟨command, hasTime, .created, none⟩ where
  interruption := by rintro ⟨⟩
  created _ := rfl
  dropped := by rintro ⟨⟩

theorem Call.Spared.moved {call : Call} {stage : CallStage} (h : call.Spared)
    (hbegun : stage.isBegun) : Call.Spared { call with stage } where
  interruption := h.interruption
  created hstage := by
    obtain rfl : stage = .created := hstage
    cases hbegun
  dropped hstage := by
    obtain rfl : stage = .dropped := hstage
    cases hbegun

namespace LiveCache

variable {σ : Type} {s : LiveCache σ} {a c : Nat} {e : Event} {call call' : Call}

/-- Running out of time does not touch a call that has not begun. -/
theorem spared_interrupt (hc : s.calls[c]? = some call) (h : call.Spared)
    (hc' : (s.interrupt c .timeout).calls[c]? = some call') : call'.Spared := by
  rcases call with ⟨command, hasTime, stage, interruption⟩
  simp only [interrupt, List.getElem?_modify_eq, hc, Option.map_eq_map, Option.map_some] at hc'
  cases hc'
  cases stage with
  | prepared | joined | working =>
    refine ⟨?_, by rintro ⟨⟩, by rintro ⟨⟩⟩
    cases interruption with
    | none => rintro ⟨⟩
    | some i => exact h.interruption
  | _ => exact h

variable [Store σ]

theorem spared_step (hc : s.calls[c]? = some call) (h : call.Spared)
    (he : e ≠ .interrupt c .cancel) (hc' : (s.step e).calls[c]? = some call') : call'.Spared := by
  obtain ⟨call'', hc'', hstep⟩ := callStep_step (e := e) hc
  obtain rfl := Option.some.inj (hc''.symm.trans hc')
  cases hstep with
  | rest => exact h
  | @interrupt i =>
    cases i with
    | cancel => exact absurd rfl he
    | timeout => exact spared_interrupt hc h hc'
  | drop hstage hi =>
    rw [h.created hstage] at hi
    cases hi
  | prepare => exact h.moved (by split <;> rfl)
  | @wake _ _ _ outcome => exact h.moved (by cases outcome <;> rfl)
  | perform | refuse =>
    refine h.moved ?_
    unfold delivered
    split <;> rfl
  | reject | take | join | turnBack | leave | breakOff => exact h.moved rfl

theorem spared_run {events : List Event} (hc : s.calls[c]? = some call) (h : call.Spared)
    (hspared : .interrupt c .cancel ∉ events) (hc' : (s.run events).calls[c]? = some call') :
    call'.Spared := by
  induction events generalizing s call with
  | nil => exact Option.some.inj (hc.symm.trans hc') ▸ h
  | cons e events ih =>
    obtain ⟨hne, hlater⟩ := not_or.1 (mt List.mem_cons.2 hspared)
    obtain ⟨call'', hc'', -⟩ := callStep_step (e := e) hc
    exact ih hc'' (spared_step hc h (Ne.symm hne) hc'') hlater hc'

/-- What is told to a call that nobody has cancelled is the end of the attempt that it waits for. -/
theorem Ends.abandoned_of_spared {key : Text} {buffer : Bytes}
    (h : s.Ends c e (.error .cancelled)) (hc : s.calls[c]? = some call) (hspared : call.Spared)
    (hcommand : call.command = .tryGet key buffer) : ∃ a attempt, e = .wake c ∧ s.Awaits c a ∧
      s.attempts[a]? = some attempt ∧ attempt.stage = .ended .cancelled := by
  generalize hresult :
    (Except.error CacheFault.cancelled : Except CacheFault (Option Bytes)) = result at h
  cases h with
  | drop hc' =>
    cases hc.symm.trans hc'
    cases hspared.created rfl
  | reject hc' hrequest =>
    cases hc.symm.trans hc'
    cases hcommand
    cases hresult
    exact absurd hrequest Command.request_tryGet_ne_cancelled
  | late | unopened => cases hresult
  | @turnBack _ _ _ i hc' | @leave _ _ _ _ i hc' | @breakOff _ _ _ _ _ i hc' =>
    cases hc.symm.trans hc'
    cases i with
    | cancel => exact absurd rfl hspared.interruption
    | timeout => cases hresult
  | abandoned hc' hattempt hended => exact ⟨_, _, rfl, awaits_of_joined hc', hattempt, hended⟩
  | perform _ hnext | refuse _ hnext =>
    cases hresult
    exact absurd hnext (Work.resume_ne_cancelled _ _)

/-! ## Attempts that are stopped -/

/-- In the course of some events, a close stopped the attempt that a call waited for. -/
def WasClosedUpon (s : LiveCache σ) (events : List Event) (c a : Nat) : Prop :=
  ∃ before after, events = before ++ .close :: after ∧ (s.run before).Awaits c a ∧
    (s.run before).InFlight a

theorem WasClosedUpon.concat {events : List Event} (h : s.WasClosedUpon events c a) :
    s.WasClosedUpon (events ++ [e]) c a := by
  obtain ⟨before, after, rfl, hclosed⟩ := h
  exact ⟨before, after ++ [e], by rw [List.append_assoc]; rfl, hclosed⟩

/-- A call joins an attempt that was not asked to stop. -/
theorem unstopped_of_joins (hbefore : ¬ s.Awaits c a) (hafter : (s.step e).Awaits c a) :
    ∃ attempt, (s.step e).attempts[a]? = some attempt ∧ attempt.stopping = false := by
  obtain ⟨call', hc', hawaited⟩ := Option.bind_eq_some_iff.1 hafter
  obtain ⟨call, hc, hstep⟩ | ⟨command, hasTime, -, -, rfl⟩ := exists_call_of_step hc'
  · obtain hsame | ⟨rfl, hopen, ⟨request, hstage⟩, hi, hjoins⟩ | ⟨-, hnone⟩ :=
      awaited?_of_callStep hstep
    · exact absurd (Option.bind_eq_some_iff.2 ⟨call, hc, hsame.symm.trans hawaited⟩) hbefore
    · obtain rfl : s.current?.getD s.attempts.length = a :=
        Option.some.inj (hjoins.symm.trans hawaited)
      rcases call with ⟨command, hasTime, stage, interruption⟩
      subst hstage hi
      cases hcurrent : s.current? with
      | some b =>
        obtain ⟨-, attempt, hattempt, hjoin⟩ := current?_eq_some_iff.1 hcurrent
        have hsame : (s.step (.ask c)).attempts = s.attempts := by
          simp [step, ask, hc, hopen, attempts_attemptFor, hcurrent]
        refine ⟨attempt, by rw [hsame]; exact hattempt, ?_⟩
        rw [Attempt.canBeJoined, Bool.and_eq_true, Bool.not_eq_true', Bool.not_eq_true'] at hjoin
        exact hjoin.2
      | none =>
        refine ⟨⟨request.context, .created, false⟩, ?_, rfl⟩
        simp [step, ask, hc, hopen, attempts_attemptFor, hcurrent]
    · cases hnone.symm.trans hawaited
  · cases hawaited

/-- While a call waits for an attempt, only a close stops it. -/
theorem Coordinated.unstopped_step (h : s.Coordinated) {attempt : Attempt}
    (hbefore : s.Awaits c a) (hafter : (s.step e).Awaits c a)
    (ha : s.attempts[a]? = some attempt) (hunstopped : attempt.stopping = false) :
    (∃ attempt', (s.step e).attempts[a]? = some attempt' ∧ attempt'.stopping = false) ∨
      e = .close ∧ s.InFlight a := by
  obtain ⟨attempt', ha', hstep⟩ := attemptStep_step (e := e) ha
  cases hstep with
  | rest | begin | finish => exact .inl ⟨_, ha', hunstopped⟩
  | @abandon d call i hended hone hd hawaited hi =>
    -- the call that gives up is the only one that waits
    have hwaits : s.Awaits d a := Option.bind_eq_some_iff.2 ⟨call, hd, hawaited⟩
    obtain rfl : c = d := (h.waiting_eq_one_iff hwaits).1 hone c a hbefore
    obtain ⟨command, hasTime, request, interruption, hc⟩ := hbefore.exists_joined
    cases hd.symm.trans hc
    subst hi
    have hover : (s.step (.wake c)).calls[c]? =
        some ⟨command, hasTime, .over (command.answer (.error i.fault)), some i⟩ := by
      simp [LiveCache.step, wake, hc, calls_finish]
    rw [Awaits, hover] at hafter
    cases hafter
  | close hended hopening =>
    exact .inr ⟨rfl, _, ha, by simp [Attempt.canBeJoined, hended, hunstopped]⟩

/-- The attempt that a call waits for was stopped by a close, if at all. -/
theorem Coordinated.unstopped_run (h : s.Coordinated) (hnone : ∀ a, ¬ s.Awaits c a)
    (events : List Event) (hawaits : (s.run events).Awaits c a) :
    (∃ attempt, (s.run events).attempts[a]? = some attempt ∧ attempt.stopping = false) ∨
      s.WasClosedUpon events c a := by
  induction events using List.reverseRecOn with
  | nil => exact absurd hawaits (hnone a)
  | append_singleton events e ih =>
    rw [run_concat] at hawaits ⊢
    by_cases hbefore : (s.run events).Awaits c a
    · obtain ⟨attempt, ha, hunstopped⟩ | hclosed := ih hbefore
      · apply (h.run.unstopped_step hbefore hawaits ha hunstopped).imp_right
        rintro ⟨rfl, hflight⟩
        exact ⟨events, [], rfl, hbefore, hflight⟩
      · exact .inr hclosed.concat
    · exact .inl (unstopped_of_joins hbefore hawaits)

/-! ## Lenient reads -/

/-- A run in which a call starts after some events. -/
def runWith (s : LiveCache σ) (before : List Event) (command : Command) (hasTime : Bool)
    (after : List Event) : LiveCache σ :=
  s.run (before ++ .start command hasTime :: after)

/-- The answer of this call. -/
def answerWith (s : LiveCache σ) (before : List Event) (command : Command) (hasTime : Bool)
    (after : List Event) : Option (Except CacheFault Answer) :=
  (s.runWith before command hasTime after).answer? (s.run before).calls.length

/-- What a caller can rely on who reads leniently after some events, and whom nobody cancels in
those that follow. -/
structure LenientRead (s : LiveCache σ) (before : List Event) (key : Text) (buffer : Bytes)
    (hasTime : Bool) (after : List Event) : Prop where
  /-- All but the answer is as with a read in its place. -/
  alike : s.runWith before (.tryGet key buffer) hasTime after =
    (s.runWith before (.get key) hasTime after).leniently (s.run before).calls.length buffer
  /-- It hits when the read would have got a payload, which stands behind what was there. -/
  hit {bytes : Bytes} :
    s.answerWith before (.tryGet key buffer) hasTime after = some (.ok (.buffer true bytes)) ↔
      ∃ payload, bytes = buffer ++ payload ∧
        s.answerWith before (.get key) hasTime after = some (.ok (.payload (some payload)))
  /-- It misses when the read would have missed or failed, and the buffer is as it was. -/
  miss {bytes : Bytes} :
    s.answerWith before (.tryGet key buffer) hasTime after = some (.ok (.buffer false bytes)) ↔
      bytes = buffer ∧
        (s.answerWith before (.get key) hasTime after = some (.ok (.payload none)) ∨
          ∃ fault, fault ≠ .cancelled ∧
            s.answerWith before (.get key) hasTime after = some (.error fault))
  /-- It gives no other answer. -/
  isBuffer {answer : Answer} :
    s.answerWith before (.tryGet key buffer) hasTime after = some (.ok answer) →
      ∃ hit bytes, answer = .buffer hit bytes
  /-- It raises when it wakes to an attempt that was cancelled, and never else: a close has stopped
  the attempt while the read waited for it, or it was not asked to stop and gave itself up. -/
  raised {fault : CacheFault} :
    s.answerWith before (.tryGet key buffer) hasTime after = some (.error fault) →
      fault = .cancelled ∧ ∃ earlier later a attempt,
        before ++ .start (.tryGet key buffer) hasTime :: after =
          earlier ++ .wake (s.run before).calls.length :: later ∧
        (s.run earlier).Awaits (s.run before).calls.length a ∧
        (s.run earlier).attempts[a]? = some attempt ∧ attempt.stage = .ended .cancelled ∧
        (attempt.stopping = false ∨ s.WasClosedUpon earlier (s.run before).calls.length a)
  /-- Until it has answered, a turn is due on its behalf, and there were less than nine. -/
  pending : s.answerWith before (.tryGet key buffer) hasTime after = none →
    (∃ e,
      (s.runWith before (.tryGet key buffer) hasTime after).isDue (s.run before).calls.length e) ∧
    ((s.run before).start (.tryGet key buffer) hasTime).dueTurns (s.run before).calls.length after
      < 9

variable {key : Text} {buffer : Bytes} {hasTime : Bool} {before after : List Event}

theorem runWith_eq {command : Command} : s.runWith before command hasTime after =
    ((s.run before).start command hasTime).run after := by
  rw [runWith, run_append]
  rfl

omit [Store σ] in
theorem calls_start {command : Command} : (s.start command hasTime).calls[s.calls.length]? =
    some { command, hasTime } := List.getElem?_concat_length

omit [Store σ] in
theorem turnsLeft_start {command : Command} :
    (s.start command hasTime).turnsLeft s.calls.length = 9 := by
  rw [turnsLeft, calls_start]
  rfl

theorem runWith_leniently : s.runWith before (.tryGet key buffer) hasTime after =
    (s.runWith before (.get key) hasTime after).leniently (s.run before).calls.length buffer := by
  rw [runWith_eq, runWith_eq]
  exact run_start_tryGet key buffer hasTime after

theorem answerWith_leniently : s.answerWith before (.tryGet key buffer) hasTime after =
    (s.answerWith before (.get key) hasTime after).map (SlidingCache.leniently buffer) := by
  rw [answerWith, runWith_leniently, answer?_leniently]
  rfl

/-- The answer of a call is that to the result with which its operation ended. -/
theorem exists_ends_of_answerWith {command : Command} {answer : Except CacheFault Answer}
    (h : s.answerWith before command hasTime after = some answer) :
    ∃ earlier e later result, after = earlier ++ e :: later ∧
      (s.runWith before command hasTime earlier).Ends (s.run before).calls.length e result ∧
        answer = command.answer result := by
  rw [answerWith, runWith_eq] at h
  obtain ⟨call', hc', hcommand⟩ := exists_call_run (calls_start (s := s.run before)) after
  have hstage := answer?_eq_some hc' h
  obtain ⟨earlier, e, later, result, rfl, hends, hended⟩ :=
    exists_ends_run calls_start rfl hc' (by rw [Call.isOver, hstage])
  refine ⟨earlier, e, later, result, rfl, by rw [runWith_eq]; exact hends, ?_⟩
  obtain hover | ⟨hdropped, -⟩ := hended
  · rw [hstage, hcommand] at hover
    exact CallStage.over.inj hover
  · cases hstage.symm.trans hdropped

/-- Only an attempt that was cancelled makes a lenient read raise that nobody cancels. -/
theorem abandoned_of_answerWith {fault : CacheFault}
    (hspared : .interrupt (s.run before).calls.length .cancel ∉ after)
    (h : s.answerWith before (.tryGet key buffer) hasTime after = some (.error fault)) :
    fault = .cancelled ∧ ∃ earlier later a attempt,
      after = earlier ++ .wake (s.run before).calls.length :: later ∧
      (s.runWith before (.tryGet key buffer) hasTime earlier).Awaits (s.run before).calls.length a ∧
      (s.runWith before (.tryGet key buffer) hasTime earlier).attempts[a]? = some attempt ∧
      attempt.stage = .ended .cancelled := by
  obtain ⟨earlier, e, later, result, rfl, hends, hanswer⟩ := exists_ends_of_answerWith h
  obtain rfl := Command.eq_error_of_answer hanswer.symm
  obtain rfl : fault = .cancelled := by
    cases fault <;> cases hanswer
    rfl
  obtain ⟨call', hc', hcommand⟩ := exists_call_run (calls_start (s := s.run before)) earlier
  have hspared' : call'.Spared := spared_run calls_start (Call.spared_new _ _)
    (fun hmem => hspared (List.mem_append_left _ hmem)) hc'
  rw [← runWith_eq] at hc'
  obtain ⟨a, attempt, rfl, hattempt⟩ := hends.abandoned_of_spared hc' hspared' hcommand
  exact ⟨rfl, earlier, later, a, attempt, rfl, hattempt⟩

/-- A call that nobody cancels has its next turn due until it has answered. -/
theorem Coordinated.due_of_pending (h : s.Coordinated) (hc : s.calls[c]? = some call)
    (hcall : call.Spared) (hspared : .interrupt c .cancel ∉ after)
    (hpending : (s.run after).answer? c = none) :
    (∃ e, (s.run after).isDue c e) ∧ s.dueTurns c after < s.turnsLeft c := by
  obtain ⟨call', hc', -⟩ := exists_call_run hc after
  have hopen : call'.isOver = false := by
    have hdropped := (spared_run hc hcall hspared hc').dropped
    rw [answer?, hc', Option.map_some] at hpending
    rcases call' with ⟨command, hasTime, stage, interruption⟩
    cases stage with
    | created | prepared | joined | working => rfl
    | dropped => exact absurd rfl hdropped
    | _ => cases hpending
  refine ⟨h.run.exists_due hc' hopen, ?_⟩
  have hleft : (s.run after).turnsLeft c ≠ 0 := fun hnone => by
    rw [isOver_of_turnsLeft hc' hnone] at hopen
    cases hopen
  have hturns := h.turnsLeft_run hc after
  omega

/-- A read answers with what its work brought or with a fault. -/
theorem answerWith_get {answer : Except CacheFault Answer}
    (h : s.answerWith before (.get key) hasTime after = some answer) :
    (∃ payload, answer = .ok (.payload payload)) ∨ ∃ fault, answer = .error fault := by
  obtain ⟨-, -, -, result, -, -, rfl⟩ := exists_ends_of_answerWith h
  cases result with
  | ok payload => exact .inl ⟨payload, rfl⟩
  | error fault => exact .inr ⟨fault, rfl⟩

theorem answerWith_eq_hit_iff {bytes : Bytes} :
    s.answerWith before (.tryGet key buffer) hasTime after = some (.ok (.buffer true bytes)) ↔
      ∃ payload, bytes = buffer ++ payload ∧
        s.answerWith before (.get key) hasTime after = some (.ok (.payload (some payload))) := by
  rw [answerWith_leniently, Option.map_eq_some_iff]
  constructor
  · rintro ⟨answer, hget, hhit⟩
    obtain ⟨payload, rfl⟩ | ⟨fault, rfl⟩ := answerWith_get hget
    · cases payload <;> cases hhit
      exact ⟨_, rfl, hget⟩
    · cases fault <;> cases hhit
  · rintro ⟨payload, rfl, hget⟩
    exact ⟨_, hget, rfl⟩

theorem answerWith_eq_miss_iff {bytes : Bytes} :
    s.answerWith before (.tryGet key buffer) hasTime after = some (.ok (.buffer false bytes)) ↔
      bytes = buffer ∧
        (s.answerWith before (.get key) hasTime after = some (.ok (.payload none)) ∨
          ∃ fault, fault ≠ .cancelled ∧
            s.answerWith before (.get key) hasTime after = some (.error fault)) := by
  rw [answerWith_leniently, Option.map_eq_some_iff]
  constructor
  · rintro ⟨answer, hget, hmiss⟩
    obtain ⟨payload, rfl⟩ | ⟨fault, rfl⟩ := answerWith_get hget
    · cases payload <;> cases hmiss
      exact ⟨rfl, .inl hget⟩
    · have hfault : fault ≠ .cancelled := fun hfault => by
        rw [hfault] at hmiss
        cases hmiss
      refine ⟨?_, .inr ⟨fault, hfault, hget⟩⟩
      cases fault <;> cases hmiss <;> rfl
  · rintro ⟨rfl, hget | ⟨fault, hfault, hget⟩⟩
    · exact ⟨_, hget, rfl⟩
    · refine ⟨_, hget, ?_⟩
      cases fault with
      | cancelled => exact absurd rfl hfault
      | _ => rfl

/-- **A lenient read that nobody cancels answers as it promises**, whatever is in the store and
whatever else happens, unless the attempt to open the store that it waits for is cancelled. -/
theorem lenientRead_run (cache : Cache) (backend : Backend) (store : σ) (now : Instant)
    (before : List Event) (key : Text) (buffer : Bytes) (hasTime : Bool) (after : List Event)
    (hspared :
      .interrupt (run { cache, backend, store, now } before).calls.length .cancel ∉ after) :
    LenientRead { cache, backend, store, now } before key buffer hasTime after where
  alike := runWith_leniently
  hit := answerWith_eq_hit_iff
  miss := answerWith_eq_miss_iff
  isBuffer {answer} h := by
    obtain ⟨-, -, -, result, -, -, hanswer⟩ := exists_ends_of_answerWith h
    cases result with
    | ok payload => cases payload <;> exact ⟨_, _, Except.ok.inj hanswer⟩
    | error fault => cases fault <;> cases hanswer <;> exact ⟨_, _, rfl⟩
  raised {fault} h := by
    obtain ⟨rfl, earlier, later, a, attempt, rfl, hawaits, hattempt, hended⟩ :=
      abandoned_of_answerWith hspared h
    have hnew : ({ cache, backend, store, now } : LiveCache σ).Coordinated := coordinated_new
    refine ⟨rfl, before ++ .start (.tryGet key buffer) hasTime :: earlier, later, a, attempt,
      by rw [List.append_assoc]; rfl, hawaits, hattempt, hended, ?_⟩
    obtain ⟨attempt', hattempt', hunstopped⟩ | hclosed :=
      hnew.unstopped_run (fun _ => by rintro ⟨⟩) _ hawaits
    · cases hattempt.symm.trans hattempt'
      exact .inl hunstopped
    · exact .inr hclosed
  pending h := by
    have hstart : ((run { cache, backend, store, now } before).start (.tryGet key buffer)
        hasTime).Coordinated := coordinated_new.run.step (e := .start (.tryGet key buffer) hasTime)
    rw [answerWith, runWith_eq] at h
    have hpending := hstart.due_of_pending calls_start (Call.spared_new _ _) hspared h
    rw [runWith_eq]
    rwa [turnsLeft_start] at hpending

/-- An entry with a window of two seconds. -/
def windowValue : Bytes :=
  ("\x7b\"sldexp\":2000000\x7d" : Text).flatMap CodePoint.octets ++ [Entry.lineFeed, 1]

/-- The read opens the store, and somebody else writes over what it has fetched, both times. -/
def outpaced : List Event :=
  [.begin 0, .ask 0, .beginAttempt 0, .endAttempt 0 (.opened 0), .wake 0, .perform 0,
    .rival (.put "k" windowValue none), .perform 0, .perform 0,
    .rival (.put "k" windowValue none), .perform 0]

/-- The read takes all of its nine turns. -/
theorem lenientRead_run_outpaced :
    let s₀ : LiveCache MemoryStore := { backend := ⟨"cache", false⟩, store := {}, now := default }
    let before : List Event := [.rival (.put "k" windowValue none)]
    LenientRead s₀ before "k" [7] true outpaced ∧
      ((s₀.run before).start (.tryGet "k" [7]) true).dueTurns 0 outpaced = 9 ∧
      (s₀.answerWith before (.tryGet "k" [7]) true outpaced).bind Except.toOption =
        some (.buffer true [7, 1]) := by
  intro s₀ before
  have hspared : .interrupt (s₀.run before).calls.length .cancel ∉ outpaced := by
    simp [outpaced]
  exact ⟨lenientRead_run {} ⟨"cache", false⟩ ({} : MemoryStore) default before "k" [7] true outpaced
      hspared,
    by decide +kernel, by decide +kernel⟩

/-- The cache is closed while the read waits for the store, and the attempt does as it is asked. -/
def closedUpon : List Event :=
  [.begin 0, .ask 0, .beginAttempt 0, .close, .endAttempt 0 .cancelled, .release 0, .wake 0]

/-- The read raises, though nobody has cancelled it. -/
theorem lenientRead_closedUpon :
    let s₀ : LiveCache MemoryStore := { backend := ⟨"cache", false⟩, store := {}, now := default }
    ¬ ∀ (before : List Event) (key : Text) (buffer : Bytes) (hasTime : Bool) (after : List Event),
      .interrupt (s₀.run before).calls.length .cancel ∉ after →
      ∀ fault, s₀.answerWith before (.tryGet key buffer) hasTime after ≠ some (.error fault) := by
  intro s₀ h
  have hraised : (s₀.answerWith [] (.tryGet "k" []) true closedUpon).any (!·.isOk) = true := by
    decide +kernel
  obtain ⟨answer, hanswer, hfault⟩ := (Option.any_eq_true _ _).1 hraised
  cases answer with
  | ok => cases hfault
  | error fault => exact h [] "k" [] true closedUpon (by simp [closedUpon]) fault hanswer

end LiveCache

end SlidingCache
