import SlidingCache.Proofs.Live.Opening

/-!
# One attempt at a time

Callers share the attempt to open the store. `LiveCache.SingleFlight` says what they can rely on at
a moment and in whatever happens after it:

* there is one attempt under way at most (`unique`), and no call makes another one while it is under
  way (`shared`) or while a handle is held (`held`, `taken`);
* who joined an attempt gets its handle or its exception (`received`, `woken`, `ended`, `final`);
* an attempt is asked to stop by a close or by the only call that still waits (`stopped`), so a call
  that gives up changes nothing for another one (`undisturbed`);
* an attempt that fails or is cancelled leaves no handle (`ended`, `cleared`, `idle`), the next call
  makes one new attempt (`retried`), and the late end of an old one never touches a newer one
  (`stale`, `kept`).

To be asked to stop does not keep an attempt from ending with a handle. It is stored then, and held
even if a new attempt has been made meanwhile (`stored`).

It holds at every moment of every run (`LiveCache.singleFlight_run`), from
`LiveCache.Coordinated` as the invariant of the steps.
-/

namespace SlidingCache.LiveCache

variable {σ : Type} [Store σ] {s : LiveCache σ} {a b c : Nat} {e : Event} {later : List Event}

@[simp] theorem run_nil : s.run [] = s := rfl

@[simp] theorem run_cons : s.run (e :: later) = (s.step e).run later := rfl

theorem run_append {earlier : List Event} : s.run (earlier ++ later) = (s.run earlier).run later :=
  List.foldl_append

theorem run_concat : s.run (later ++ [e]) = (s.run later).step e := List.foldl_append

/-- A call keeps its number and its command. -/
theorem exists_call_run {call : Call} (hc : s.calls[c]? = some call) (later : List Event) :
    ∃ call', (s.run later).calls[c]? = some call' ∧ call'.command = call.command := by
  induction later generalizing s call with
  | nil => exact ⟨call, hc, rfl⟩
  | cons e later ih =>
    obtain ⟨call', hc', hstep⟩ := callStep_step (e := e) hc
    obtain ⟨call'', hc'', hcommand⟩ := ih hc'
    exact ⟨call'', hc'', hcommand.trans (command_of_callStep hstep)⟩

theorem length_calls_run (h : ∀ e ∈ later, ∀ command hasTime, e ≠ .start command hasTime) :
    (s.run later).calls.length = s.calls.length := by
  induction later generalizing s with
  | nil => rfl
  | cons e later ih =>
    exact (ih fun e he => h e (List.mem_cons_of_mem _ he)).trans
      (length_calls_step (h e List.mem_cons_self))

theorem openingState_run (h : ∀ e ∈ later, e.isApart) :
    (s.run later).openingState = s.openingState := by
  induction later generalizing s with
  | nil => rfl
  | cons e later ih =>
    exact (ih fun e he => h e (List.mem_cons_of_mem _ he)).trans
      (openingState_step_of_isApart (h e List.mem_cons_self))

theorem Coordinated.run (h : s.Coordinated) : (s.run later).Coordinated := by
  induction later generalizing s with
  | nil => exact h
  | cons e later ih => exact ih h.step

omit [Store σ] in
theorem coordinated_new {cache : Cache} {backend : Backend} {store : σ} {now : Instant} :
    ({ cache, backend, store, now } : LiveCache σ).Coordinated where
  waiting := rfl
  awaited h := by cases h
  underway h := by obtain ⟨_, h, _⟩ := h; cases h
  stored h := by cases h

/-! ## Calls of the factory -/

/-- Whether an event calls the factory: it lets an attempt begin that was not asked to stop. -/
def callsFactory (s : LiveCache σ) : Event → Bool
  | .beginAttempt a => match s.attempts[a]? with
    | some ⟨_, .created, false⟩ => true
    | _ => false
  | _ => false

/-- How often the factory is called in a run. -/
def factoryCalls (s : LiveCache σ) : List Event → Nat
  | [] => 0
  | e :: later => (s.callsFactory e).toNat + (s.step e).factoryCalls later

/-- Whether an attempt has not called the factory yet. -/
def isPending (s : LiveCache σ) (a : Nat) : Bool := match s.attempts[a]? with
  | some ⟨_, .created, _⟩ => true
  | _ => false

omit [Store σ] in
theorem isPending_eq_true_iff :
    s.isPending a ↔ ∃ attempt, s.attempts[a]? = some attempt ∧ attempt.stage = .created := by
  unfold isPending
  split
  · rename_i h
    exact iff_of_true rfl ⟨_, h, rfl⟩
  · rename_i hnot
    refine iff_of_false Bool.false_ne_true ?_
    rintro ⟨⟨context, stage, stopping⟩, ha, rfl⟩
    exact hnot context stopping ha

omit [Store σ] in
theorem callsFactory_eq_true_iff :
    s.callsFactory e ↔ ∃ a context, e = .beginAttempt a ∧
      s.attempts[a]? = some ⟨context, .created, false⟩ := by
  constructor
  · intro h
    cases e with
    | beginAttempt a =>
      simp only [callsFactory] at h
      split at h
      · exact ⟨a, _, rfl, by assumption⟩
      · cases h
    | _ => cases h
  · rintro ⟨a, context, rfl, h⟩
    simp [callsFactory, h]

omit [Store σ] in
/-- An attempt that does not exist does not begin. -/
theorem callsFactory_of_length (h : s.attempts.length ≤ a) :
    s.callsFactory (.beginAttempt a) = false := by
  rw [callsFactory, List.getElem?_eq_none h]

theorem factoryCalls_append {earlier : List Event} :
    s.factoryCalls (earlier ++ later) =
      s.factoryCalls earlier + (s.run earlier).factoryCalls later := by
  induction earlier generalizing s with
  | nil => exact (Nat.zero_add _).symm
  | cons e earlier ih =>
    rw [List.cons_append, factoryCalls, factoryCalls, ih, run_cons, Nat.add_assoc]

theorem factoryCalls_of_isApart (h : ∀ e ∈ later, e.isApart) : s.factoryCalls later = 0 := by
  induction later generalizing s with
  | nil => rfl
  | cons e later ih =>
    have hcall : s.callsFactory e = false := by
      have hapart := h e List.mem_cons_self
      cases e with
      | beginAttempt a => cases hapart
      | _ => rfl
    rw [factoryCalls, hcall, ih fun e he => h e (List.mem_cons_of_mem _ he)]
    rfl

/-- What was not under way before an event and is no new attempt is not under way after it. -/
theorem inFlight_of_run (h : (s.run later).InFlight a) (ha : a < s.attempts.length) :
    s.InFlight a := by
  induction later generalizing s with
  | nil => exact h
  | cons e later ih =>
    have hlen : a < (s.step e).attempts.length := by
      obtain ⟨attempt', h', _⟩ := attemptStep_step (e := e) (List.getElem?_eq_getElem ha)
      exact (List.getElem?_eq_some_iff.1 h').1
    obtain hs | ⟨_, _, _, hnew, _⟩ := inFlight_of_step (ih h hlen)
    · exact hs
    · omega

omit [Store σ] in
theorem Coordinated.unique (h : s.Coordinated) (ha : s.InFlight a) (hb : s.InFlight b) : a = b :=
  Option.some.inj ((h.underway ha).symm.trans (h.underway hb))

/-- No attempt is made where there is a handle or an attempt to join. -/
theorem length_attempts_step_of_way (hway : s.handle = none → s.current? ≠ none) :
    (s.step e).attempts.length = s.attempts.length := by
  apply Nat.le_antisymm
  · -- a new attempt would have the next number
    refine Nat.le_of_not_lt fun hlt => ?_
    obtain ⟨_, hold, _⟩ | ⟨_, hnone, hcur, _⟩ :=
      exists_attempt_of_step (e := e) (List.getElem?_eq_getElem hlt)
    · simp at hold
    · exact hway hnone hcur
  · refine Nat.le_of_not_lt fun hlt => ?_
    obtain ⟨_, h', _⟩ := attemptStep_step (e := e) (List.getElem?_eq_getElem hlt)
    simp at h'

/-- While an attempt is under way only it calls the factory, when it begins. -/
theorem Coordinated.factory_step (h : s.Coordinated) (ha : s.InFlight a)
    (ha' : (s.step e).InFlight a) :
    (s.callsFactory e).toNat + ((s.step e).isPending a).toNat = (s.isPending a).toNat := by
  obtain ⟨⟨context, stage, stopping⟩, hattempt, hjoin⟩ := ha
  obtain ⟨attempt', hafter, hstep⟩ := attemptStep_step (e := e) hattempt
  have hjoin' : attempt'.canBeJoined := by
    obtain ⟨attempt'', h', hj⟩ := ha'
    rwa [Option.some.inj (hafter.symm.trans h')]
  cases hcall : s.callsFactory e with
  | true =>
    obtain ⟨b, context', rfl, hb⟩ := callsFactory_eq_true_iff.1 hcall
    obtain rfl : a = b := h.unique ⟨_, hattempt, hjoin⟩ ⟨_, hb, rfl⟩
    have hbegun : (s.step (.beginAttempt a)).attempts[a]? = some ⟨context', .opening, false⟩ := by
      simp [LiveCache.step, beginAttempt, attempts_moveAttempt, hb]
    simp [isPending, hbegun, hb]
  | false =>
    suffices hsame : (s.step e).isPending a = s.isPending a by simp [hsame]
    cases hstep with
    | rest => simp [isPending, hafter, hattempt]
    | begin hs =>
      cases stopping with
      | true => simp [Attempt.canBeJoined] at hjoin
      | false =>
        subst hs
        simp [callsFactory, hattempt] at hcall
    | finish => simp [Attempt.canBeJoined, Attempt.hasEnded] at hjoin'
    | abandon | close => simp [Attempt.canBeJoined] at hjoin'

theorem Coordinated.shared (h : s.Coordinated) (ha : s.InFlight a)
    (ha' : (s.run later).InFlight a) :
    (s.run later).attempts.length = s.attempts.length ∧
      s.factoryCalls later + ((s.run later).isPending a).toNat = (s.isPending a).toNat := by
  induction later generalizing s with
  | nil => exact ⟨rfl, by simp [factoryCalls]⟩
  | cons e later ih =>
    have hlen := length_attempts_step_of_way (e := e) fun _ => by
      rw [h.current?_eq_some_iff.2 ha]; exact Option.some_ne_none a
    have hflight : (s.step e).InFlight a := by
      obtain ⟨_, hattempt, _⟩ := ha
      exact inFlight_of_run ha' (hlen ▸ (List.getElem?_eq_some_iff.1 hattempt).1)
    have hstep := h.factory_step ha hflight
    obtain ⟨hlen', hcalls⟩ := ih h.step hflight ha'
    refine ⟨hlen'.trans hlen, ?_⟩
    simp only [factoryCalls, run_cons]
    omega

/-- Whether the attempt under way has still to call the factory. -/
def isReady (s : LiveCache σ) : Bool := s.current?.any s.isPending

/-- Who finds a way to the store calls no factory, and the attempt under way calls it once. -/
theorem Coordinated.ready_step (h : s.Coordinated) (hway : s.handle = none → s.current? ≠ none) :
    (s.callsFactory e).toNat + (s.step e).isReady.toNat ≤ s.isReady.toNat := by
  cases hcall : s.callsFactory e with
  | true =>
    obtain ⟨a, context, rfl, ha⟩ := callsFactory_eq_true_iff.1 hcall
    have hready : s.isReady := by
      rw [isReady, h.current?_eq_some_iff.2 ⟨_, ha, rfl⟩]
      simp [isPending, ha]
    have hbegun : (s.step (.beginAttempt a)).attempts[a]? = some ⟨context, .opening, false⟩ := by
      simp [LiveCache.step, beginAttempt, attempts_moveAttempt, ha]
    have hafter : (s.step (.beginAttempt a)).current? = some a :=
      h.step.current?_eq_some_iff.2 ⟨_, hbegun, rfl⟩
    have hdone : (s.step (.beginAttempt a)).isReady = false := by
      simp [isReady, hafter, isPending, hbegun]
    rw [hready, hdone]
    exact Nat.le_refl _
  | false =>
    cases hafter : (s.step e).isReady with
    | false => exact Nat.zero_le _
    | true =>
      -- what has not begun yet had not begun before
      obtain ⟨a, hcur, hpending⟩ := (Option.any_eq_true _ _).1 hafter
      obtain hflight | ⟨_, hnone, hcur', _⟩ :=
        inFlight_of_step (h.step.current?_eq_some_iff.1 hcur)
      · obtain ⟨attempt, ha, hjoin⟩ := hflight
        obtain ⟨attempt', ha', hstep⟩ := attemptStep_step (e := e) ha
        have hcreated : attempt'.stage = .created := by
          obtain ⟨attempt'', ha'', hs⟩ := isPending_eq_true_iff.1 hpending
          rwa [Option.some.inj (ha'.symm.trans ha'')]
        have hbefore : attempt.stage = .created := by
          cases hstep with
          | rest | abandon | close => exact hcreated
          | begin hs => exact hs
          | finish => cases hcreated
        have hready : s.isReady := by
          rw [isReady, h.current?_eq_some_iff.2 ⟨_, ha, hjoin⟩]
          exact isPending_eq_true_iff.2 ⟨_, ha, hbefore⟩
        rw [hready]
        exact Nat.le_refl _
      · exact absurd hcur' (hway hnone)

/-- With a handle in hand, nobody calls the factory but an attempt that was under way before. -/
theorem Coordinated.held (h : s.Coordinated) (hopen : s.isOpen) (hclose : .close ∉ later) :
    (s.run later).isOpen ∧ (s.run later).attempts.length = s.attempts.length ∧
      s.factoryCalls later ≤ s.isReady.toNat := by
  induction later generalizing s with
  | nil => exact ⟨hopen, rfl, Nat.zero_le _⟩
  | cons e later ih =>
    have hopen' : (s.step e).isOpen := by
      obtain hsame | ⟨rfl, _⟩ | ⟨_, _, _, _, _, _, hafter⟩ := handle_step (s := s) (e := e)
      · rwa [isOpen, hsame]
      · simp at hclose
      · rw [isOpen, hafter]
        rfl
    have hway : s.handle = none → s.current? ≠ none := fun hnone => by
      rw [isOpen, hnone] at hopen
      cases hopen
    have hlen := length_attempts_step_of_way (e := e) hway
    have hready := h.ready_step (e := e) hway
    obtain ⟨ho, hl, hc⟩ := ih h.step hopen' fun hmem => hclose (List.mem_cons_of_mem _ hmem)
    refine ⟨ho, hl.trans hlen, ?_⟩
    simp only [factoryCalls]
    omega

theorem taken_step {command : Command} {hasTime : Bool} {request : Request} {handle : Handle}
    (hhandle : s.handle = some handle)
    (hc : s.calls[c]? = some ⟨command, hasTime, .prepared request, none⟩) :
    (s.step (.ask c)).calls[c]? = some ⟨command, hasTime, .working handle request, none⟩ := by
  simp [step, ask, hc, hhandle, calls_moveCall]

/-! ## What a caller gets -/

/-- A call that waits for an attempt and is not interrupted waits on, or it woke to the outcome of
that attempt. -/
theorem received_run {command : Command} {hasTime : Bool} {request : Request}
    (hc : s.calls[c]? = some ⟨command, hasTime, .joined a request, none⟩)
    (hlater : ∀ i, .interrupt c i ∉ later) :
    (s.run later).calls[c]? = some ⟨command, hasTime, .joined a request, none⟩ ∨
      ∃ before after attempt outcome, later = before ++ .wake c :: after ∧
        (s.run before).attempts[a]? = some attempt ∧ attempt.stage = .ended outcome ∧
        (s.run (before ++ [.wake c])).calls[c]? =
          some ⟨command, hasTime, received command request outcome, none⟩ := by
  induction later generalizing s with
  | nil => exact .inl hc
  | cons e later ih =>
    obtain ⟨call', hc', hstep⟩ := callStep_step (e := e) hc
    have hrest : ∀ i, .interrupt c i ∉ later := fun i hmem => hlater i (List.mem_cons_of_mem _ hmem)
    cases hstep with
    | rest =>
      apply (ih hc' hrest).imp_right
      rintro ⟨before, after, attempt, outcome, rfl, hattempt, hended, hwoke⟩
      exact ⟨e :: before, after, attempt, outcome, rfl, hattempt, hended, hwoke⟩
    | wake hs _ hattempt hended =>
      obtain ⟨rfl, rfl⟩ : _ = _ ∧ _ = _ := by simpa using hs
      exact .inr ⟨[], later, _, _, rfl, hattempt, hended, hc'⟩
    | interrupt => exact absurd List.mem_cons_self (hlater _)
    | drop hs | reject hs | prepare hs | take hs | join hs | turnBack hs | perform hs
    | refuse hs | breakOff hs => cases hs
    | leave _ hi => cases hi

/-- An outcome stays. -/
theorem final_run {attempt : Attempt} (ha : s.attempts[a]? = some attempt) (he : attempt.hasEnded) :
    (s.run later).attempts[a]? = some attempt := by
  induction later generalizing s with
  | nil => exact ha
  | cons e later ih => exact ih (ended_step ha he)

/-- An attempt that has called the factory leaves the handle that it ends with. Otherwise it leaves
the one that was there. -/
theorem handle_endAttempt {attempt : Attempt} {outcome : Outcome}
    (ha : s.attempts[a]? = some attempt) (hstage : attempt.stage = .opening) :
    (s.step (.endAttempt a outcome)).handle = outcome.handle?.or s.handle := by
  rcases attempt with ⟨context, stage, stopping⟩
  subst hstage
  cases outcome <;> simp [step, endAttempt, ha, Outcome.handle?, moveAttempt, say]

/-! ## Giving up -/

omit [Store σ] in
/-- When one call is counted as waiting, it is the only one that waits. -/
theorem Coordinated.eq_of_waiting (h : s.Coordinated) (hw : s.waiting = 1) {call call' : Call}
    (hb : s.calls[b]? = some call) (hc : s.calls[c]? = some call') (hwait : call.isWaiting)
    (hwait' : call'.isWaiting) : b = c :=
  eq_of_countP_eq_one (h.waiting.symm.trans hw) hb hwait hc hwait'

theorem Coordinated.stopped (h : s.Coordinated) {attempt attempt' : Attempt}
    (ha : s.attempts[a]? = some attempt) (ha' : (s.step e).attempts[a]? = some attempt')
    (hs : attempt.stopping = false) (hs' : attempt'.stopping) :
    (e = .close ∧ s.opening = some a) ∨
      ∃ c call, e = .wake c ∧ s.calls[c]? = some call ∧ call.awaited? = some a ∧
        call.interruption.isSome ∧
        ∀ b call', s.calls[b]? = some call' → call'.isWaiting → b = c := by
  obtain ⟨attempt'', h', hstep⟩ := attemptStep_step (e := e) ha
  obtain rfl : attempt'' = attempt' := Option.some.inj (h'.symm.trans ha')
  cases hstep with
  | rest | begin | finish => simp_all
  | abandon _ hw hc hawaited hi =>
    refine .inr ⟨_, _, rfl, hc, hawaited, by simp [hi], fun b call' hb hwait => ?_⟩
    exact h.eq_of_waiting hw hb hc hwait (by simp [Call.isWaiting, hawaited])
  | close _ hopening => exact .inl ⟨rfl, hopening⟩

theorem Coordinated.undisturbed (h : s.Coordinated) {call call' : Call} (hbc : b ≠ c)
    (hb : s.calls[b]? = some call) (hc : s.calls[c]? = some call') (hwait : call.isWaiting)
    (hwait' : call'.isWaiting) (hi : call'.interruption.isSome) :
    (s.step (.wake c)).calls[b]? = some call ∧ (s.step (.wake c)).attempts = s.attempts ∧
      (s.step (.wake c)).opening = s.opening ∧ (s.step (.wake c)).handle = s.handle := by
  refine ⟨(calls_wake_of_ne hbc.symm).trans hb, ?_⟩
  rcases call' with ⟨command, hasTime, stage, interruption⟩
  obtain ⟨i, rfl⟩ := Option.isSome_iff_exists.1 hi
  cases stage with
  | joined a request =>
    have hw : s.waiting ≠ 1 := fun hw => hbc (h.eq_of_waiting hw hb hc hwait hwait')
    simp [LiveCache.step, wake, hc, leave, hw, finish, moveCall, say]
  | _ => cases hwait'

/-! ## After a failure -/

/-- An attempt has ended with the handle although it was asked to stop. -/
def IsLate (s : LiveCache σ) (handle : Handle) : Prop :=
  ∃ (a : Nat) (attempt : Attempt), s.attempts[a]? = some attempt ∧
    attempt.stage = .ended (.opened handle) ∧ attempt.stopping

omit [Store σ] in
theorem Coordinated.isLate_of_inFlight {handle : Handle} (h : s.Coordinated) (ha : s.InFlight a)
    (hhandle : s.handle = some handle) : s.IsLate handle := by
  obtain ⟨b, attempt, hb, hended, hstop | hrest⟩ := h.stored hhandle
  · exact ⟨b, attempt, hb, hended, hstop⟩
  · exact absurd ha hrest

/-- Where only late handles are held, it stays so if no attempt under way opens the store. -/
theorem isLate_step (hlate : ∀ handle, s.handle = some handle → s.IsLate handle)
    (hrest : ∀ a handle, e = .endAttempt a (.opened handle) → ¬ s.InFlight a) :
    ∀ handle, (s.step e).handle = some handle → (s.step e).IsLate handle := by
  intro handle hafter
  obtain hsame | ⟨_, hnone⟩ | ⟨a, attempt, handle', rfl, ha, hstage, hstored⟩ :=
    handle_step (s := s) (e := e)
  · obtain ⟨b, attempt, hb, hended, hstop⟩ := hlate handle (hsame.symm.trans hafter)
    exact ⟨b, attempt, ended_step hb (by simp [Attempt.hasEnded, hended]), hended, hstop⟩
  · cases hnone.symm.trans hafter
  · obtain rfl : handle' = handle := Option.some.inj (hstored.symm.trans hafter)
    refine ⟨a, _, attempts_endAttempt ha hstage, rfl, ?_⟩
    cases hstop : attempt.stopping with
    | true => rfl
    | false => exact absurd (inFlight_of_opening ha hstage hstop) (hrest a handle' rfl)

/-- An attempt that is asked to stop, fails or is cancelled leaves nothing to join, and no handle
but a late one. -/
theorem Coordinated.cleared (h : s.Coordinated) (ha : s.InFlight a)
    (ha' : ¬ (s.step e).InFlight a) (hfailure : ∀ handle, e ≠ .endAttempt a (.opened handle)) :
    (s.step e).current? = none ∧
      ∀ handle, (s.step e).handle = some handle → (s.step e).IsLate handle := by
  constructor
  · cases hcur : (s.step e).current? with
    | none => rfl
    | some b =>
      have hb := h.step.current?_eq_some_iff.1 hcur
      obtain hold | ⟨_, _, hnone, _⟩ := inFlight_of_step hb
      · exact absurd (h.unique ha hold ▸ hb) ha'
      · rw [h.current?_eq_some_iff.2 ha] at hnone
        cases hnone
  · refine isLate_step (fun _ => h.isLate_of_inFlight ha) fun b handle he hb => ?_
    exact hfailure handle (h.unique ha hb ▸ he)

/-- Without an attempt to join the factory rests until a call asks, and only late handles come. -/
theorem Coordinated.idle (h : s.Coordinated)
    (hlate : ∀ handle, s.handle = some handle → s.IsLate handle) (hcur : s.current? = none)
    (hask : ∀ c, .ask c ∉ later) :
    (∀ handle, (s.run later).handle = some handle → (s.run later).IsLate handle) ∧
      (s.run later).current? = none ∧ s.factoryCalls later = 0 := by
  induction later generalizing s with
  | nil => exact ⟨hlate, hcur, rfl⟩
  | cons e later ih =>
    have hnone : ∀ a, ¬ s.InFlight a := fun a ha => by
      rw [h.current?_eq_some_iff.2 ha] at hcur
      cases hcur
    have hlate' := isLate_step (e := e) hlate fun a _ _ => hnone a
    have hcur' : (s.step e).current? = none := by
      cases hcur' : (s.step e).current? with
      | none => rfl
      | some a =>
        obtain hold | ⟨⟨c, rfl⟩, _⟩ := inFlight_of_step (h.step.current?_eq_some_iff.1 hcur')
        · exact absurd hold (hnone a)
        · exact absurd List.mem_cons_self (hask c)
    have hcall : s.callsFactory e = false := by
      cases hcall : s.callsFactory e with
      | false => rfl
      | true =>
        obtain ⟨a, _, _, ha⟩ := callsFactory_eq_true_iff.1 hcall
        exact absurd ⟨_, ha, rfl⟩ (hnone a)
    obtain ⟨hl, hc, hf⟩ := ih h.step hlate' hcur' fun c hmem => hask c (List.mem_cons_of_mem _ hmem)
    exact ⟨hl, hc, by simp [factoryCalls, hcall, hf]⟩

/-- Who asks where there is neither a handle nor an attempt to join makes one attempt and joins it,
and that attempt calls the factory once when it begins. -/
theorem retried_step {command : Command} {hasTime : Bool} {request : Request}
    (hhandle : s.handle = none) (hcur : s.current? = none)
    (hc : s.calls[c]? = some ⟨command, hasTime, .prepared request, none⟩) :
    let s' := s.step (.ask c)
    s'.attempts = s.attempts ++ [{ context := request.context }] ∧
      s'.InFlight s.attempts.length ∧
      s'.calls[c]? = some ⟨command, hasTime, .joined s.attempts.length request, none⟩ ∧
      s'.factoryCalls [.beginAttempt s.attempts.length] = 1 := by
  have hattempts : (s.step (.ask c)).attempts = s.attempts ++ [{ context := request.context }] := by
    simp [step, ask, hc, hhandle, attempts_attemptFor, hcur]
  refine ⟨hattempts, ⟨{ context := request.context }, by simp [hattempts], rfl⟩, ?_, ?_⟩
  · simp [step, ask, hc, hhandle, calls_moveCall, attemptFor, hcur]
  · simp [factoryCalls, callsFactory, hattempts]

/-- Letting go of an attempt that has been replaced changes nothing. -/
theorem release_of_ne (hne : s.opening ≠ some a) : s.step (.release a) = s := by
  simp [step, release, hne]

theorem Coordinated.release_of_inFlight (h : s.Coordinated) (hb : s.InFlight b) :
    s.step (.release a) = s := by
  by_cases hab : a = b
  · subst hab
    obtain ⟨attempt, ha, hjoin⟩ := hb
    have hended : attempt.hasEnded = false := by simp [Attempt.canBeJoined] at hjoin; exact hjoin.1
    simp [LiveCache.step, release, ha, hended]
  · exact release_of_ne fun hopening =>
      hab (Option.some.inj (hopening.symm.trans (h.underway hb)))

/-- The end of an attempt touches no call and no other attempt. -/
theorem untouched_endAttempt {outcome : Outcome} :
    (s.step (.endAttempt a outcome)).calls = s.calls ∧
      (s.step (.endAttempt a outcome)).opening = s.opening ∧
      ∀ b, b ≠ a → (s.step (.endAttempt a outcome)).attempts[b]? = s.attempts[b]? := by
  simp only [step, endAttempt]
  split
  · cases outcome <;> exact ⟨rfl, rfl, fun b hb => by simp [attempts_moveAttempt, hb.symm]⟩
  · exact ⟨rfl, rfl, fun _ _ => rfl⟩

/-! ## The whole -/

/-- What callers can rely on while they share the opening of the store. -/
structure SingleFlight (s : LiveCache σ) : Prop where
  unique : ∀ {a b}, s.InFlight a → s.InFlight b → a = b
  /-- As long as an attempt is under way no other is made, and the factory is called by that attempt
  alone, when it begins. -/
  shared : ∀ {a later}, s.InFlight a → (s.run later).InFlight a →
    (s.run later).attempts.length = s.attempts.length ∧
      s.factoryCalls later + ((s.run later).isPending a).toNat = (s.isPending a).toNat
  /-- As long as nobody closes the cache a handle is held and no attempt made, and the factory is
  called by that attempt alone, once, that was under way before and had not called it. -/
  held : ∀ {later}, s.isOpen → .close ∉ later →
    (s.run later).isOpen ∧ (s.run later).attempts.length = s.attempts.length ∧
      s.factoryCalls later ≤ s.isReady.toNat
  /-- Who asks while a handle is held gets it. -/
  taken : ∀ {c command hasTime request handle}, s.handle = some handle →
    s.calls[c]? = some ⟨command, hasTime, .prepared request, none⟩ →
    (s.step (.ask c)).calls[c]? = some ⟨command, hasTime, .working handle request, none⟩
  /-- The handle is what an attempt has ended with. If another attempt is under way, that one was
  asked to stop. -/
  stored : ∀ {handle}, s.handle = some handle → ∃ (a : Nat) (attempt : Attempt),
    s.attempts[a]? = some attempt ∧ attempt.stage = .ended (.opened handle) ∧
      (attempt.stopping ∨ ∀ {b}, ¬ s.InFlight b)
  /-- A call that joined an attempt waits on until it wakes to the outcome of that attempt. -/
  received : ∀ {c a command hasTime request later},
    s.calls[c]? = some ⟨command, hasTime, .joined a request, none⟩ →
    (∀ i, .interrupt c i ∉ later) →
    (s.run later).calls[c]? = some ⟨command, hasTime, .joined a request, none⟩ ∨
      ∃ before after attempt outcome, later = before ++ .wake c :: after ∧
        (s.run before).attempts[a]? = some attempt ∧ attempt.stage = .ended outcome ∧
        (s.run (before ++ [.wake c])).calls[c]? =
          some ⟨command, hasTime, LiveCache.received command request outcome, none⟩
  /-- It does wake to that outcome. -/
  woken : ∀ {c a : Nat} {command hasTime request outcome} {attempt : Attempt},
    s.calls[c]? = some ⟨command, hasTime, .joined a request, none⟩ →
    s.attempts[a]? = some attempt → attempt.stage = .ended outcome →
    (s.step (.wake c)).calls[c]? =
      some ⟨command, hasTime, LiveCache.received command request outcome, none⟩
  /-- An attempt has the outcome of the factory, also if it was asked to stop. The cache holds the
  handle that it ends with, and without one the handle that it held before. -/
  ended : ∀ {a context stopping outcome}, s.attempts[a]? = some ⟨context, .opening, stopping⟩ →
    (s.step (.endAttempt a outcome)).attempts[a]? = some ⟨context, .ended outcome, stopping⟩ ∧
      (s.step (.endAttempt a outcome)).handle = outcome.handle?.or s.handle
  final : ∀ {a : Nat} {later} {attempt : Attempt}, s.attempts[a]? = some attempt →
    attempt.hasEnded → (s.run later).attempts[a]? = some attempt
  /-- Only a close, or the only call that still waits, asks an attempt to stop. -/
  stopped : ∀ {a : Nat} {e} {attempt attempt' : Attempt}, s.attempts[a]? = some attempt →
    (s.step e).attempts[a]? = some attempt' → attempt.stopping = false → attempt'.stopping →
    (e = .close ∧ s.opening = some a) ∨
      ∃ c call, e = .wake c ∧ s.calls[c]? = some call ∧ call.awaited? = some a ∧
        call.interruption.isSome ∧
        ∀ b call', s.calls[b]? = some call' → call'.isWaiting → b = c
  /-- A call that gives up while another one waits changes nothing that the other one sees. -/
  undisturbed : ∀ {b c : Nat} {call call' : Call}, b ≠ c → s.calls[b]? = some call →
    s.calls[c]? = some call' → call.isWaiting → call'.isWaiting → call'.interruption.isSome →
    (s.step (.wake c)).calls[b]? = some call ∧ (s.step (.wake c)).attempts = s.attempts ∧
      (s.step (.wake c)).opening = s.opening ∧ (s.step (.wake c)).handle = s.handle
  /-- An attempt that fails, is cancelled or is asked to stop leaves nothing to join, and no handle
  is held but one that another attempt came with after it was asked to stop. -/
  cleared : ∀ {a e}, s.InFlight a → ¬ (s.step e).InFlight a →
    (∀ handle, e ≠ .endAttempt a (.opened handle)) →
    (s.step e).current? = none ∧
      ∀ handle, (s.step e).handle = some handle → (s.step e).IsLate handle
  /-- So it stays until a call asks for the store. -/
  idle : ∀ {later}, (∀ handle, s.handle = some handle → s.IsLate handle) → s.current? = none →
    (∀ c, .ask c ∉ later) →
    (∀ handle, (s.run later).handle = some handle → (s.run later).IsLate handle) ∧
      (s.run later).current? = none ∧ s.factoryCalls later = 0
  /-- If there is no handle then, that call makes one attempt, joins it, and the attempt calls the
  factory once. -/
  retried : ∀ {c command hasTime request}, s.handle = none → s.current? = none →
    s.calls[c]? = some ⟨command, hasTime, .prepared request, none⟩ →
    (s.step (.ask c)).attempts = s.attempts ++ [{ context := request.context }] ∧
      (s.step (.ask c)).InFlight s.attempts.length ∧
      (s.step (.ask c)).calls[c]? =
        some ⟨command, hasTime, .joined s.attempts.length request, none⟩ ∧
      (s.step (.ask c)).factoryCalls [.beginAttempt s.attempts.length] = 1
  /-- The end of an attempt, however late, touches no call and no other attempt. -/
  stale : ∀ {a outcome}, (s.step (.endAttempt a outcome)).calls = s.calls ∧
    (s.step (.endAttempt a outcome)).opening = s.opening ∧
    ∀ b, b ≠ a → (s.step (.endAttempt a outcome)).attempts[b]? = s.attempts[b]?
  /-- To let go of an attempt changes nothing once another one has taken its place or is under
  way. -/
  kept : ∀ {a b}, s.opening ≠ some a ∨ s.InFlight b → s.step (.release a) = s

theorem Coordinated.singleFlight (h : s.Coordinated) : s.SingleFlight where
  unique := h.unique
  shared := h.shared
  held := h.held
  taken := taken_step
  stored := h.stored
  received := received_run
  woken {_ _ _ _ _ outcome _} hc ha he := by
    cases outcome <;>
      simp [LiveCache.step, wake, hc, ha, he, calls_moveCall, calls_finish, LiveCache.received]
  ended ha := ⟨attempts_endAttempt ha rfl, handle_endAttempt ha rfl⟩
  final := final_run
  stopped := h.stopped
  undisturbed := h.undisturbed
  cleared := h.cleared
  idle := h.idle
  retried := retried_step
  stale := untouched_endAttempt
  kept := fun hkept => hkept.elim release_of_ne h.release_of_inFlight

end SlidingCache.LiveCache
