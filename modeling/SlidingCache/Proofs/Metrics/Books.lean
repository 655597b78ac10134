import SlidingCache.Proofs.Expiration.Exact
import SlidingCache.Proofs.Metrics.Notes
import SlidingCache.Proofs.Shared.Failure

/-!
# What every event enters in the books

A call has its turns, and each of them moves it to another stage and may note something. `Moved`
lists the moves with what they note, and `LiveCache.booked` says that an event is one of them, or
idle: it leaves every call where it is, and nothing of it is counted. So what the books need to know
of an event is how it changes the number of calls of a kind (`LiveCache.count`) and of notices of a
kind (`LiveCache.noted`).

What is under way suits its command all along (`Request.Suits`).
-/

namespace SlidingCache

/-! ## What is entered -/

/-- Whether an event may happen to a cache over a store in memory to which all writers come through
the cache: nothing fails on the way to the store, and nobody else puts a value into it. -/
def Event.isInHouse : Event → Bool
  | .rival call => call.value?.isNone
  | .refuse .. => false
  | _ => true

/-- Whether an event is a turn of a call. -/
def Event.isTurnOfCall : Event → Bool
  | .begin _ | .ask _ | .wake _ | .perform _ | .refuse .. => true
  | _ => false

namespace LiveCache

variable {σ : Type}

/-- The request whose store call is performed in an event. -/
def served? (s : LiveCache σ) : Event → Option Request
  | .perform c => match s.calls[c]? with
    | some ⟨_, _, .working _ request, none⟩ => some request
    | _ => none
  | _ => none

/-- How many calls there are of a kind, by what they were asked and how far they are. -/
def count (s : LiveCache σ) (p : Command → CallStage → Bool) : Nat :=
  s.calls.countP fun call => p call.command call.stage

/-- How often something of a kind was noted. -/
def noted (s : LiveCache σ) (kind : Notice → Bool) : Nat := s.journal.countP (kind ·.notice)

/-- What moves a call to another stage, and what is noted in the course of it. -/
inductive Moved [Store σ] (s : LiveCache σ) (c : Nat) (call : Call) :
    Event → CallStage → List Notice → Prop
  | drop : call.stage = .created → Moved s c call (.begin c) .dropped []
  | reject {fault} : call.stage = .created → call.command.request s.cache s.now = .error fault →
    Moved s c call (.begin c) (.over (call.command.answer (.error fault))) []
  | prepare {r} : call.stage = .created → call.command.request s.cache s.now = .ok r →
    Moved s c call (.begin c) (.prepared r) []
  /-- Without time from the start. -/
  | late {r} : call.stage = .created → call.command.request s.cache s.now = .ok r →
    Moved s c call (.begin c) (.over (call.command.answer (.error .timedOut)))
      (closingNotices r.operation (.error .timedOut))
  /-- On the way to the store. -/
  | pass {e r stage} : s.served? e = none → call.request? = some r →
    ({ call with stage } : Call).request? = some r → Moved s c call e stage []
  /-- Interrupted, or without the store. -/
  | fail {e r fault} : s.served? e = none → call.request? = some r → fault.isRefusal = false →
    Moved s c call e (.over (call.command.answer (.error fault)))
      (closingNotices r.operation (.error fault))
  | turn {handle r reply} : s.served? (.perform c) = some r → call.stage = .working handle r →
    reply = (Store.perform s.now r.call s.store).1 →
    Moved s c call (.perform c) (delivered s.now call.command handle r reply)
      ((r.work.resume r.key s.now reply).notices ++
        (r.work.resume r.key s.now reply).next.elim (fun _ => []) (closingNotices r.operation))

/-- An event by which no call gets to another stage, but one may come. -/
structure Idle [Store σ] (s : LiveCache σ) (e : Event) : Prop where
  served : s.served? e = none
  count : ∀ p : Command → CallStage → Bool, (∀ command, p command .created = false) →
    (s.step e).count p = s.count p
  journal : ∃ more, (s.step e).journal = s.journal ++ more ∧
    ∀ remark ∈ more, remark.isCounted = false

/-! ### What an event adds to the journal -/

section
variable {s : LiveCache σ} {c : Nat}

theorem journal_moveCall {stage : CallStage} :
    ∃ context, (s.moveCall c stage).journal = s.journal ++ ([] : List Notice).map (⟨context, ·⟩) :=
  ⟨.outside, (List.append_nil _).symm⟩

theorem journal_leave {a : Nat} : (s.leave a).journal = s.journal := by
  unfold leave
  split <;> rfl

theorem journal_attemptFor {context : LogContext Text} :
    (s.attemptFor context).2.journal = s.journal := by
  unfold attemptFor
  split <;> rfl

/-- What is entered when the store has answered. -/
theorem entered_deliver (s : LiveCache σ) (c : Nat) (command : Command) (handle : Handle)
    {r : Request} (reply : Except StoreFault r.call.Reply) :
    (s.deliver c command handle r reply).calls =
        s.calls.modify c
          (fun call => { call with stage := delivered s.now command handle r reply }) ∧
      (s.deliver c command handle r reply).journal = s.journal ++
        ((r.work.resume r.key s.now reply).notices ++
          (r.work.resume r.key s.now reply).next.elim (fun _ => [])
            (closingNotices r.operation)).map (⟨r.context, ·⟩) := by
  unfold deliver delivered
  dsimp only
  cases hnext : (r.work.resume r.key s.now reply).next with
  | inl work =>
    simp only [Sum.elim_inl, List.append_nil]
    exact ⟨rfl, rfl⟩
  | inr result =>
    simp only [Sum.elim_inr, List.map_append, ← List.append_assoc]
    exact ⟨rfl, rfl⟩

theorem journal_endAttempt {a : Nat} {outcome : Outcome} :
    ∃ more, (s.endAttempt a outcome).journal = s.journal ++ more ∧
      ∀ remark ∈ more, remark.isCounted = false := by
  have hsame : ∃ more, s.journal = s.journal ++ more ∧
      ∀ remark ∈ more, remark.isCounted = false := ⟨[], by simp⟩
  unfold endAttempt
  split
  · rename_i context _ _
    cases outcome with
    | failed fault =>
      refine ⟨[⟨context, .say .openFailed (some (.unopened fault))⟩], rfl, ?_⟩
      intro remark hremark
      rw [List.mem_singleton.1 hremark]
      rfl
    | opened handle =>
      refine ⟨_, rfl, ?_⟩
      intro remark hremark
      simp only [List.map_map, List.mem_map] at hremark
      obtain ⟨line, -, rfl⟩ := hremark
      rfl
    | cancelled => exact hsame
  · exact hsame

end

/-! ### What an event is for the books -/

section
variable [Store σ] {s : LiveCache σ} {c : Nat} {e : Event}

/-- A move of a call is entered in the calls and in the journal. -/
structure Enters (s : LiveCache σ) (e : Event) (c : Nat) (stage : CallStage)
    (notices : List Notice) : Prop where
  calls : (s.step e).calls = s.calls.modify c fun call => { call with stage }
  journal : ∃ context, (s.step e).journal = s.journal ++ notices.map (⟨context, ·⟩)

/-- What an event is for the books: it moves a call, or is idle. -/
def Booked (s : LiveCache σ) (e : Event) : Prop :=
  (∃ c call stage notices, s.calls[c]? = some call ∧ s.Moved c call e stage notices ∧
    s.Enters e c stage notices) ∨ s.Idle e

theorem idle_of_eq (hserved : s.served? e = none) (h : s.step e = s) : s.Idle e where
  served := hserved
  count := by rw [h]; exact fun _ _ => rfl
  journal := ⟨[], by rw [h, List.append_nil], by simp⟩

theorem booked_begin : s.Booked (.begin c) := by
  cases hc : s.calls[c]? with
  | none => exact .inr (idle_of_eq rfl (by rw [step, begin, hc]))
  | some call =>
    rcases call with ⟨command, hasTime, stage, interruption⟩
    cases stage with
    | created =>
      left
      cases interruption with
      | some i =>
        have hstep : s.step (.begin c) = s.moveCall c .dropped := by rw [step, begin, hc]
        exact ⟨c, _, _, _, hc, .drop rfl, by rw [hstep]; rfl, hstep ▸ journal_moveCall⟩
      | none =>
        cases hr : command.request s.cache s.now with
        | error fault =>
          have hstep : s.step (.begin c) =
              s.moveCall c (.over (command.answer (.error fault))) := by
            simp only [step, begin, hc, hr]
          exact ⟨c, _, _, _, hc, .reject rfl hr, by rw [hstep]; rfl, hstep ▸ journal_moveCall⟩
        | ok r =>
          cases hasTime with
          | true =>
            have hstep : s.step (.begin c) = s.moveCall c (.prepared r) := by
              simp only [step, begin, hc, hr, if_true]
            exact ⟨c, _, _, _, hc, .prepare rfl hr, by rw [hstep]; rfl, hstep ▸ journal_moveCall⟩
          | false =>
            have hstep : s.step (.begin c) = s.finish c command r (.error .timedOut) := by
              simp only [step, begin, hc, hr, Bool.false_eq_true, if_false]
            exact ⟨c, _, _, _, hc, .late rfl hr, by rw [hstep]; rfl, by rw [hstep]; exact ⟨_, rfl⟩⟩
    | _ => exact .inr (idle_of_eq rfl (by simp only [step, begin, hc]))

theorem booked_ask : s.Booked (.ask c) := by
  cases hc : s.calls[c]? with
  | none => exact .inr (idle_of_eq rfl (by rw [step, ask, hc]))
  | some call =>
    rcases call with ⟨command, hasTime, stage, interruption⟩
    cases stage with
    | prepared r =>
      left
      cases interruption with
      | some i =>
        have hstep : s.step (.ask c) = s.finish c command r (.error i.fault) := by
          rw [step, ask, hc]
        exact ⟨c, _, _, _, hc, .fail rfl rfl i.isRefusal_fault, by rw [hstep]; rfl,
          by rw [hstep]; exact ⟨_, rfl⟩⟩
      | none =>
        cases hhandle : s.handle with
        | some handle =>
          have hstep : s.step (.ask c) = s.moveCall c (.working handle r) := by
            simp only [step, ask, hc, hhandle]
          exact ⟨c, _, _, _, hc, .pass rfl rfl rfl, by rw [hstep]; rfl, hstep ▸ journal_moveCall⟩
        | none =>
          obtain ⟨a, hstep⟩ : ∃ a, s.step (.ask c) =
              ({ (s.attemptFor r.context).2 with
                waiting := (s.attemptFor r.context).2.waiting + 1 }).moveCall c (.joined a r) :=
            ⟨(s.attemptFor r.context).1,
              by simp only [step, ask, hc, hhandle]⟩
          refine ⟨c, _, .joined a r, _, hc, .pass rfl rfl rfl, ?_, .outside, ?_⟩
          · rw [hstep]
            exact congrArg (List.modify · c _) calls_attemptFor
          · rw [hstep]
            exact journal_attemptFor.trans (List.append_nil _).symm
    | _ => exact .inr (idle_of_eq rfl (by simp only [step, ask, hc]))

theorem booked_wake : s.Booked (.wake c) := by
  cases hc : s.calls[c]? with
  | none => exact .inr (idle_of_eq rfl (by rw [step, wake, hc]))
  | some call =>
    rcases call with ⟨command, hasTime, stage, interruption⟩
    cases stage with
    | joined a r =>
      have hfail : ∀ (fault : CacheFault) (s' : LiveCache σ), fault.isRefusal = false →
          s'.calls = s.calls → s'.journal = s.journal →
          s.step (.wake c) = s'.finish c command r (.error fault) → s.Booked (.wake c) := by
        intro fault s' hfault hcalls hjournal hstep
        refine .inl ⟨c, _, _, _, hc, .fail rfl rfl hfault, ?_, r.context, ?_⟩
        · rw [hstep, ← hcalls]
          rfl
        · rw [hstep, ← hjournal]
          rfl
      cases interruption with
      | some i =>
        exact hfail _ (s.leave a) i.isRefusal_fault calls_leave journal_leave
          (by rw [step, wake, hc])
      | none =>
        cases ha : s.attempts[a]? with
        | none => exact .inr (idle_of_eq rfl (by simp only [step, wake, hc, ha, Option.map_none]))
        | some attempt =>
          cases hstage : attempt.stage with
          | ended outcome =>
            cases outcome with
            | opened handle =>
              have hstep : s.step (.wake c) =
                  ({ s with waiting := s.waiting - 1 }).moveCall c (.working handle r) := by
                simp only [step, wake, hc, ha, Option.map_some, hstage]
              exact .inl ⟨c, _, _, _, hc, .pass rfl rfl rfl, by rw [hstep]; rfl, .outside,
                by rw [hstep]; exact (List.append_nil _).symm⟩
            | failed fault =>
              apply hfail (.unopened fault) { s with waiting := s.waiting - 1 } rfl rfl rfl
              simp only [step, wake, hc, ha, Option.map_some, hstage]
            | cancelled =>
              apply hfail .cancelled { s with waiting := s.waiting - 1 } rfl rfl rfl
              simp only [step, wake, hc, ha, Option.map_some, hstage]
          | _ =>
            exact .inr (idle_of_eq rfl
              (by simp only [step, wake, hc, ha, Option.map_some, hstage]))
    | _ => exact .inr (idle_of_eq rfl (by simp only [step, wake, hc]))

theorem booked_perform : s.Booked (.perform c) := by
  cases hc : s.calls[c]? with
  | none =>
    exact .inr (idle_of_eq (by rw [served?, hc]) (by rw [step, LiveCache.perform, hc]))
  | some call =>
    rcases call with ⟨command, hasTime, stage, interruption⟩
    cases stage with
    | working handle r =>
      left
      cases interruption with
      | some i =>
        have hstep : s.step (.perform c) = s.finish c command r (.error i.fault) := by
          rw [step, LiveCache.perform, hc]
        exact ⟨c, _, _, _, hc, .fail (by rw [served?, hc]) rfl i.isRefusal_fault,
          by rw [hstep]; rfl, by rw [hstep]; exact ⟨_, rfl⟩⟩
      | none =>
        have hstep : s.step (.perform c) =
            ({ s with store := (Store.perform s.now r.call s.store).2 }).deliver c command handle r
              (Store.perform s.now r.call s.store).1 := by
          simp only [step, LiveCache.perform, hc]
        obtain ⟨hcalls, hjournal⟩ :=
          entered_deliver { s with store := (Store.perform s.now r.call s.store).2 } c command
            handle (Store.perform s.now r.call s.store).1
        exact ⟨c, _, _, _, hc, .turn (by rw [served?, hc]) rfl rfl, by rw [hstep]; exact hcalls,
          r.context, by rw [hstep]; exact hjournal⟩
    | _ =>
      exact .inr (idle_of_eq (by simp only [served?, hc])
        (by simp only [step, LiveCache.perform, hc]))

/-- An event that is not the turn of a call leaves every call where it is, and is not counted. -/
theorem idle_of_not_turn (h : e.isTurnOfCall = false) : s.Idle e where
  served := by
    cases e with
    | perform => cases h
    | _ => rfl
  count p hcreated := by
    by_cases hstart : ∃ command hasTime, e = .start command hasTime
    · obtain ⟨command, hasTime, rfl⟩ := hstart
      simp [LiveCache.count, step, start, hcreated]
    · refine countP_congr_getElem? fun c => ?_
      cases hc : s.calls[c]? with
      | none =>
        have hlen := length_calls_step (s := s) (e := e) fun _ _ h => hstart ⟨_, _, h⟩
        rw [List.getElem?_eq_none_iff] at hc
        rw [List.getElem?_eq_none_iff.2 (hlen ▸ hc)]
      | some call =>
        obtain ⟨call', hc', hstep⟩ := callStep_step (e := e) hc
        rw [hc']
        cases hstep with
        | rest | interrupt => rfl
        | breakOff _ _ he => rcases he with rfl | ⟨fault, rfl⟩ <;> cases h
        | _ => cases h
  journal := by
    cases e with
    | begin | ask | wake | perform | refuse => cases h
    | endAttempt a outcome => exact journal_endAttempt
    | _ =>
      refine ⟨[], ?_, by simp⟩
      simp only [step, start, interrupt, beginAttempt, release, close]
      repeat' split
      all_goals exact (List.append_nil _).symm

/-- **Every event of a cache is booked.** -/
theorem booked (he : e.isInHouse) : s.Booked e := by
  cases e with
  | begin c => exact booked_begin
  | ask c => exact booked_ask
  | wake c => exact booked_wake
  | perform c => exact booked_perform
  | refuse => cases he
  | _ => exact .inr (idle_of_not_turn rfl)

/-! ## What is counted -/

variable {call : Call} {stage : CallStage} {notices : List Notice}

theorem Enters.noted (h : s.Enters e c stage notices) (kind : Notice → Bool) :
    (s.step e).noted kind = s.noted kind + notices.countP kind := by
  obtain ⟨context, hjournal⟩ := h.journal
  rw [LiveCache.noted, hjournal, List.countP_append, List.countP_map]
  rfl

theorem Enters.count (hc : s.calls[c]? = some call) (h : s.Enters e c stage notices)
    (p : Command → CallStage → Bool) :
    (s.step e).count p + (p call.command call.stage).toNat =
      s.count p + (p call.command stage).toNat := by
  have hmodify := countP_modify (p := fun call => p call.command call.stage)
    (f := fun call => { call with stage }) hc
  have hnat : ∀ b : Bool, b.toNat = if b then 1 else 0 := by
    intro b
    cases b <;> rfl
  rw [LiveCache.count, LiveCache.count, h.calls, hnat, hnat]
  exact hmodify

theorem Idle.noted_le (h : s.Idle e) (kind : Notice → Bool) :
    s.noted kind ≤ (s.step e).noted kind := by
  obtain ⟨more, hjournal, -⟩ := h.journal
  rw [LiveCache.noted, LiveCache.noted, hjournal, List.countP_append]
  exact Nat.le_add_right _ _

theorem Idle.noted (h : s.Idle e) {kind : Notice → Bool}
    (hkind : ∀ line fault, kind (.say line fault) = false) :
    (s.step e).noted kind = s.noted kind := by
  obtain ⟨more, hjournal, hmore⟩ := h.journal
  have hzero : more.countP (kind ·.notice) = 0 := by
    rw [List.countP_eq_zero]
    intro remark hremark
    have huncounted := hmore remark hremark
    rcases remark with ⟨context, notice⟩
    cases notice with
    | say line fault =>
      rw [hkind]
      exact Bool.false_ne_true
    | _ => cases huncounted
  rw [LiveCache.noted, hjournal, List.countP_append, hzero]
  rfl

end

end LiveCache

/-! ## Requests that suit their commands -/

/-- The request is one that the command asks for. -/
structure Request.Suits (cache : Cache) (command : Command) (r : Request) : Prop where
  key : cache.storeKey command.key = .ok r.key
  operation : r.operation = command.operation
  isRead : r.work.isRead = command.isRead
  write : ∀ call, r.work = .write call →
    call.expected? = none ∧ (call.value?.isSome ↔ command.operation = .set)

namespace Command

variable {cache : Cache} {command : Command} {r : Request} {now : Instant}

theorem put_of_writeCall {key : Text} {value : Bytes} {options : ExpirationOptions}
    {call : StoreCall} (h : writeCall key value options now = .ok call) :
    ∃ data ttl, call = .put key data ttl := by
  obtain ⟨plan, hplan, -⟩ := Chain.bind_eq_ok.1 h
  obtain ⟨data, hdata⟩ := ExpirationOptions.writeCall_of_plan (Chain.mapError_eq_ok.1 hplan) h
  exact ⟨data, plan.ttl, hdata⟩

theorem suits_of_request (h : command.request cache now = .ok r) : r.Suits cache command := by
  obtain ⟨key, hkey, hrest⟩ := Chain.bind_eq_ok.1 h
  have hkey : cache.storeKey command.key = .ok key := Chain.mapError_eq_ok.1 hkey
  obtain ⟨work, hwork, ⟨⟩⟩ := Chain.bind_eq_ok.1 hrest
  cases command with
  | get | refresh | tryGet =>
    cases hwork
    exact ⟨hkey, rfl, rfl, by intro call hcall; cases hcall⟩
  | set k value options =>
    obtain ⟨call, hcall, rfl⟩ := Chain.map_eq_ok.1 hwork
    obtain ⟨data, ttl, rfl⟩ := put_of_writeCall hcall
    refine ⟨hkey, rfl, rfl, ?_⟩
    intro call hcall
    cases hcall
    exact ⟨rfl, iff_of_true rfl rfl⟩
  | remove k =>
    cases hwork
    refine ⟨hkey, rfl, rfl, ?_⟩
    intro call hcall
    cases hcall
    exact ⟨rfl, iff_of_false Bool.false_ne_true (by intro h; cases h)⟩

/-- Work begins neither with a renewal nor after a lost write. -/
theorem fresh_of_request (h : command.request cache now = .ok r) :
    r.work.isRenewal = false ∧ r.work.isBeaten = false := by
  obtain ⟨key, -, hrest⟩ := Chain.bind_eq_ok.1 h
  obtain ⟨work, hwork, ⟨⟩⟩ := Chain.bind_eq_ok.1 hrest
  cases command with
  | get | refresh | tryGet | remove =>
    cases hwork
    exact ⟨rfl, rfl⟩
  | set k value options =>
    obtain ⟨call, -, rfl⟩ := Chain.map_eq_ok.1 hwork
    exact ⟨rfl, rfl⟩

theorem isRefusal_of_writeCall {key : Text} {value : Bytes} {options : ExpirationOptions}
    {fault : CacheFault} (h : writeCall key value options now = .error fault) :
    fault.isRefusal := by
  rcases Chain.bind_eq_error.1 h with hplan | ⟨plan, hplan, hrest⟩
  · obtain ⟨e, -, rfl⟩ := Chain.mapError_eq_error.1 hplan
    rfl
  · rcases Chain.bind_eq_error.1 hrest with hdata | ⟨data, -, hcall⟩
    · obtain ⟨e, -, rfl⟩ := Chain.mapError_eq_error.1 hdata
      rfl
    · cases hcall

/-- Of the commands with an accepted key only a write is refused, and it is raised the refusal. -/
theorem refused_of_request {fault : CacheFault} (h : command.request cache now = .error fault) :
    (cache.storeKey command.key).isOk = false ∨
      command.isRead = false ∧ command.answer (.error fault) = .error fault ∧ fault.isRefusal := by
  rcases Chain.bind_eq_error.1 h with hkey | ⟨key, hkey, hrest⟩
  · obtain ⟨e, hkey, -⟩ := Chain.mapError_eq_error.1 hkey
    rw [hkey]
    exact .inl rfl
  · rcases Chain.bind_eq_error.1 hrest with hwork | ⟨work, -, hdone⟩
    · cases command with
      | get | refresh | tryGet | remove => cases hwork
      | set k value options =>
        refine .inr ⟨rfl, rfl, ?_⟩
        cases hcall : writeCall key value options now with
        | ok call =>
          simp only [work, hcall] at hwork
          cases hwork
        | error e =>
          simp only [work, hcall] at hwork
          cases hwork
          exact isRefusal_of_writeCall hcall
    · cases hdone

end Command

section
variable {σ : Type} [Store σ] {s : LiveCache σ} {e : Event}

theorem Request.Suits.resume {cache : Cache} {command : Command} {r : Request} {now : Instant}
    {work : Work} {reply : Except StoreFault r.call.Reply} (h : r.Suits cache command)
    (hnext : (r.work.resume r.key now reply).next = .inl work) :
    Request.Suits cache command { r with work } := by
  rcases r with ⟨operation, key, before⟩
  obtain ⟨stage, stage', rfl, rfl⟩ := exists_stage_of_resume hnext
  exact ⟨h.key, h.operation, h.isRead, by intro call hcall; cases hcall⟩

/-- Everything under way suits its command. -/
def LiveCache.Suited (s : LiveCache σ) : Prop := s.Requests (Request.Suits s.cache)

theorem LiveCache.Suited.step (h : s.Suited) : (s.step e).Suited := by
  have hrequests : s.Requests (Request.Suits s.cache) := h
  rw [Suited, cache_step]
  exact hrequests.step Command.suits_of_request fun hr hnext => hr.resume hnext

end

end SlidingCache
