import SlidingCache.Metrics.Counters
import SlidingCache.Proofs.Live.Findings
import SlidingCache.Proofs.Live.Turns
import SlidingCache.Proofs.Sequence.Calls

/-!
# Closing and reopening

The store outlives the cache's hold on it. So where one call comes after the other, it makes no
difference if the cache is closed in between, but for how often the store is opened:
`LiveCache.reopening_run` compares a run with the same run without its closes.

Of two caches that agree in all but their hold on the store (`LiveCache.Twin`), one may have to open
the store for a call and the other not. When the call has the store they go on abreast
(`LiveCache.Abreast`), one store call after the other.
-/

namespace SlidingCache

/-! ## Runs of one call after another -/

/-- What is done with a cache that one caller uses. -/
inductive Move where
  /-- A call, with the time that passes in it before it asks for the store and before each of its
  store calls. -/
  | call (command : Command) (hasTime : Bool) (pauses : Nat → Duration)
  | close
  | wait (time : Duration)

def Move.isClose : Move → Bool
  | close => true
  | _ => false

/-- Whether a call waits to get the store. -/
def Call.isPrepared (call : Call) : Bool := match call.stage with
  | .prepared _ => true
  | _ => false

/-- The call with a handle, if it waits to get one. -/
def Call.served (call : Call) (handle : Handle) : Call := match call.stage with
  | .prepared r => { call with stage := .working handle r }
  | _ => call

/-- A call that has been checked waits to get the store or is over. -/
inductive Call.IsChecked : Call → Prop
  | prepared (command : Command) (r : Request) : IsChecked ⟨command, true, .prepared r, none⟩
  | done (command : Command) (hasTime : Bool) (answer : Except CacheFault Answer) :
    IsChecked ⟨command, hasTime, .over answer, none⟩

namespace LiveCache

variable {σ : Type}

/-- The events in which a call is checked. -/
def checkEvents (c : Nat) (command : Command) (hasTime : Bool) (pause : Duration) : List Event :=
  [.start command hasTime, .begin c, .advance pause]

/-- The events in which a checked call gets the store. -/
def gainEvents (c a : Nat) : List Event :=
  [.ask c, .beginAttempt a, .endAttempt a (.opened 0), .release a, .wake c]

/-- The events in which a call that has the store does its work. -/
def workEvents (c : Nat) (pauses : Nat → Duration) : List Event :=
  (List.range 5).flatMap fun i => [.advance (pauses i), .perform c]

/-- All that happens in the course of a move. -/
def moveEvents (s : LiveCache σ) : Move → List Event
  | .call command hasTime pauses =>
    checkEvents s.calls.length command hasTime (pauses 0) ++
      (gainEvents s.calls.length s.attempts.length ++
        workEvents s.calls.length fun i => pauses (i + 1))
  | .close => [.close]
  | .wait time => [.advance time]

/-- Whether a move is a call that comes as far as to need the store: it is not refused, and its time
is not up at once. -/
def reaches (s : LiveCache σ) : Move → Bool
  | .call command hasTime _ => hasTime && (command.request s.cache s.now).isOk
  | _ => false

variable [Store σ]

def move (s : LiveCache σ) (m : Move) : LiveCache σ := s.run (s.moveEvents m)

def moves (s : LiveCache σ) (ms : List Move) : LiveCache σ := ms.foldl move s

/-- The moves without the closes among them. -/
def withoutCloses (ms : List Move) : List Move := ms.filter fun m => !m.isClose

/-- The answers of the calls. -/
def moveAnswers (s : LiveCache σ) : List Move → List (Option (Except CacheFault Answer))
  | [] => []
  | .call command hasTime pauses :: rest =>
    (s.move (.call command hasTime pauses)).answer? s.calls.length ::
      (s.move (.call command hasTime pauses)).moveAnswers rest
  | m :: rest => (s.move m).moveAnswers rest

/-- How often the factory is called. -/
def openings (s : LiveCache σ) : List Move → Nat
  | [] => 0
  | m :: rest => s.factoryCalls (s.moveEvents m) + (s.move m).openings rest

/-- Which moves need the store. -/
def traced (s : LiveCache σ) : List Move → List (Move × Bool)
  | [] => []
  | m :: rest => (m, s.reaches m) :: (s.move m).traced rest

variable {s t : LiveCache σ} {c : Nat} {command : Command} {hasTime : Bool} {r : Request}

/-- A call in which no time passes is a call at one reading of the clock. -/
theorem move_call_still : s.move (.call command hasTime fun _ => ⟨0, by decide⟩) =
    (s.call command hasTime).2 := by
  have hstill : ∀ u : LiveCache σ, u.step (.advance ⟨0, by decide⟩) = u := fun u => by
    have hadd : u.now.add ⟨0, by decide⟩ = .ok u.now :=
      Instant.add_eq_ok_iff.2 ⟨(Int.add_zero _).symm, rfl⟩
    rw [step, hadd]
  have hrange : List.range 5 = [0, 1, 2, 3, 4] := rfl
  simp [move, moveEvents, checkEvents, gainEvents, workEvents, hrange, hstill, LiveCache.call,
    callEvents, List.replicate]

/-! ## Abreast -/

/-- Two caches agree on a call and on all that it goes by. -/
structure Abreast (c : Nat) (s t : LiveCache σ) : Prop where
  cache : s.cache = t.cache
  now : s.now = t.now
  store : s.store = t.store
  findings : s.findings = t.findings
  call : s.calls[c]? = t.calls[c]?

omit [Store σ] in
theorem Abreast.finish (h : Abreast c s t) {result : Except CacheFault (Option Bytes)} :
    Abreast c (s.finish c command r result) (t.finish c command r result) where
  cache := h.cache
  now := h.now
  store := h.store
  findings := by rw [findings_finish, findings_finish, h.findings]
  call := by rw [calls_finish, calls_finish, h.call]

omit [Store σ] in
theorem Abreast.deliver (h : Abreast c s t) {handle : Handle}
    {reply : Except StoreFault r.call.Reply} :
    Abreast c (s.deliver c command handle r reply) (t.deliver c command handle r reply) := by
  have hs := surroundings_deliver s c command handle r reply
  have ht := surroundings_deliver t c command handle r reply
  exact {
    cache := by rw [cache_deliver, cache_deliver, h.cache]
    now := (congrArg Prod.snd hs).trans (h.now.trans (congrArg Prod.snd ht).symm)
    store := (congrArg Prod.fst hs).trans (h.store.trans (congrArg Prod.fst ht).symm)
    findings := by rw [findings_deliver, findings_deliver, h.findings, h.now]
    call := by rw [calls_deliver, calls_deliver, h.call, h.now] }

theorem Abreast.perform (h : Abreast c s t) :
    Abreast c (s.step (.perform c)) (t.step (.perform c)) := by
  simp only [step, LiveCache.perform]
  rw [← h.call]
  split
  · exact h.finish
  · rename_i command hasTime handle r hc
    have hperform : Store.perform t.now r.call t.store = Store.perform s.now r.call s.store := by
      rw [h.now, h.store]
    rw [hperform]
    exact Abreast.deliver
      (s := { s with store := (Store.perform s.now r.call s.store).2 })
      (t := { t with store := (Store.perform s.now r.call s.store).2 })
      ⟨h.cache, h.now, rfl, h.findings, h.call⟩
  · exact h

theorem Abreast.advance (h : Abreast c s t) (time : Duration) :
    Abreast c (s.step (.advance time)) (t.step (.advance time)) := by
  simp only [step]
  rw [← h.now]
  split
  · exact ⟨h.cache, rfl, h.store, h.findings, h.call⟩
  · exact h

/-- The events in which a call that has the store does its work. -/
inductive IsWork (c : Nat) : Event → Prop
  | perform : IsWork c (.perform c)
  | advance (time : Duration) : IsWork c (.advance time)

theorem Abreast.run {events : List Event} (h : Abreast c s t) (hwork : ∀ e ∈ events, IsWork c e) :
    Abreast c (s.run events) (t.run events) := by
  induction events generalizing s t with
  | nil => exact h
  | cons e events ih =>
    refine ih ?_ fun e he => hwork e (List.mem_cons_of_mem _ he)
    cases hwork e List.mem_cons_self with
    | perform => exact h.perform
    | advance time => exact h.advance time

/-! ## Before the work -/

/-- What becomes of a call when it begins. -/
def checked (s : LiveCache σ) (command : Command) (hasTime : Bool) : CallStage :=
  match command.request s.cache s.now with
  | .error fault => .over (command.answer (.error fault))
  | .ok request => if hasTime then .prepared request else .over (command.answer (.error .timedOut))

omit [Store σ] in
theorem calls_begin_start :
    ((s.start command hasTime).begin s.calls.length).calls[s.calls.length]? =
      some ⟨command, hasTime, s.checked command hasTime, none⟩ := by
  have hstart : (s.start command hasTime).calls[s.calls.length]? =
      some ⟨command, hasTime, .created, none⟩ := List.getElem?_concat_length
  have hrequest : command.request (s.start command hasTime).cache (s.start command hasTime).now =
      command.request s.cache s.now := rfl
  rw [begin, hstart]
  dsimp only
  rw [hrequest, checked]
  cases command.request s.cache s.now with
  | error fault => exact calls_moveCall_self _ hstart
  | ok request =>
    cases hasTime with
    | true => exact calls_moveCall_self _ hstart
    | false => exact calls_moveCall_self (s := (s.start _ _).say _ _) _ hstart

omit [Store σ] in
theorem isChecked_checked :
    Call.IsChecked ⟨command, hasTime, s.checked command hasTime, none⟩ := by
  unfold checked
  split
  · exact .done _ _ _
  · cases hasTime with
    | true => exact .prepared _ _
    | false => exact .done _ _ _

/-- How a call gets the store of a cache at rest, which is opened if it is not. -/
structure Gained (s : LiveCache σ) (c : Nat) (call : Call) (s' : LiveCache σ) : Prop where
  served : s'.calls[c]? = some (call.served (s.handle.getD 0))
  settled : s.Settled s.store s'
  findings : s'.findings = s.findings
  handle : s'.handle = if call.isPrepared then some (s.handle.getD 0) else s.handle
  factory : s.factoryCalls (gainEvents c s.attempts.length) =
    (!s.isOpen && call.isPrepared).toNat

theorem factoryCalls_gainEvents {a : Nat} : s.factoryCalls (gainEvents c a) =
    ((s.step (.ask c)).callsFactory (.beginAttempt a)).toNat := by
  simp [gainEvents, factoryCalls, callsFactory]

/-- Nothing happens for a call that is over. -/
theorem gained_of_over {answer : Except CacheFault Answer} (hrest : s.AtRest)
    (hc : s.calls[c]? = some ⟨command, hasTime, .over answer, none⟩) :
    s.Gained c ⟨command, hasTime, .over answer, none⟩ (s.run (gainEvents c s.attempts.length)) := by
  have hask : s.ask c = s := by rw [ask, hc]
  have hgain : s.run (gainEvents c s.attempts.length) = s := by
    show s.gain c s.attempts.length = s
    rw [gain, hask, idle_of_length (Nat.le_refl _), wake, hc]
  rw [hgain]
  exact {
    served := hc
    settled := ⟨rfl, rfl, rfl, hrest⟩
    findings := rfl
    handle := rfl
    factory := by
      rw [factoryCalls_gainEvents, step, hask, callsFactory_of_length (Nat.le_refl _)]
      exact (congrArg Bool.toNat (Bool.and_false _)).symm }

theorem gained_of_handle {handle : Handle} (hrest : s.AtRest) (hhandle : s.handle = some handle)
    (hc : s.calls[c]? = some ⟨command, true, .prepared r, none⟩) :
    s.Gained c ⟨command, true, .prepared r, none⟩ (s.run (gainEvents c s.attempts.length)) := by
  have hask : s.ask c = s.moveCall c (.working handle r) := by
    rw [ask, hc]
    simp only [hhandle]
  have hgain : s.run (gainEvents c s.attempts.length) = s.moveCall c (.working handle r) :=
    gain_of_handle hc hhandle (Nat.le_refl _)
  rw [hgain]
  exact {
    served := by
      rw [hhandle]
      exact calls_moveCall_self _ hc
    settled := ⟨rfl, rfl, rfl, hrest⟩
    findings := rfl
    handle := by
      rw [hhandle]
      exact hhandle
    factory := by
      rw [factoryCalls_gainEvents, step, hask, isOpen, hhandle]
      exact congrArg Bool.toNat (callsFactory_of_length (Nat.le_refl _)) }

theorem gained_of_none (hrest : s.AtRest) (hhandle : s.handle = none)
    (hc : s.calls[c]? = some ⟨command, true, .prepared r, none⟩) :
    s.Gained c ⟨command, true, .prepared r, none⟩ (s.run (gainEvents c s.attempts.length)) := by
  have hopening := hrest (isOpen_eq_false_iff.2 hhandle)
  obtain ⟨hcall, hsettled, hopened⟩ := gain_of_none hc hhandle hopening
  have hnew : (s.step (.ask c)).attempts[s.attempts.length]? =
      some ⟨r.context, .created, false⟩ := by
    have hcurrent : s.current? = none := by
      rw [current?, hopening]
      rfl
    simp [step, ask, hc, hhandle, attempts_attemptFor, hcurrent]
  exact {
    served := by
      rw [hhandle]
      exact hcall
    settled := hsettled
    findings := findings_run (by simp [gainEvents, Event.isReply])
    handle := by
      rw [hhandle]
      exact hopened
    factory := by
      rw [factoryCalls_gainEvents, callsFactory, hnew, isOpen, hhandle]
      rfl }

theorem gained {call : Call} (hrest : s.AtRest) (hc : s.calls[c]? = some call)
    (hchecked : call.IsChecked) : s.Gained c call (s.run (gainEvents c s.attempts.length)) := by
  cases hchecked with
  | done => exact gained_of_over hrest hc
  | prepared =>
    cases hhandle : s.handle with
    | some handle => exact gained_of_handle hrest hhandle hc
    | none => exact gained_of_none hrest hhandle hc

omit [Store σ] in
theorem isPrepared_checked (s : LiveCache σ) (command : Command) (hasTime : Bool)
    (pauses : Nat → Duration) :
    Call.isPrepared ⟨command, hasTime, s.checked command hasTime, none⟩ =
      s.reaches (.call command hasTime pauses) := by
  simp only [checked, reaches]
  cases command.request s.cache s.now with
  | error fault => exact (Bool.and_false hasTime).symm
  | ok request => cases hasTime <;> rfl

/-! ## One move -/

omit [Store σ] in
theorem atRest_of_openingState (hrest : s.AtRest) (h : t.openingState = s.openingState) :
    t.AtRest := fun hopen => by
  have hopening : t.opening = s.opening := congrArg (·.2.1) h
  have hisOpen : t.isOpen = s.isOpen := congrArg (·.1.isSome) h
  rw [hopening]
  exact hrest (hisOpen ▸ hopen)

theorem isApart_checkEvents {pause : Duration} :
    ∀ e ∈ checkEvents c command hasTime pause, e.isApart := by
  simp [checkEvents, Event.isApart]

theorem isWork_workEvents {pauses : Nat → Duration} : ∀ e ∈ workEvents c pauses, IsWork c e := by
  intro e he
  obtain ⟨i, -, he⟩ := List.mem_flatMap.1 he
  obtain rfl | rfl : e = .advance (pauses i) ∨ e = .perform c := by simpa using he
  · exact .advance _
  · exact .perform

theorem isApart_workEvents {pauses : Nat → Duration} : ∀ e ∈ workEvents c pauses, e.isApart := by
  intro e he
  cases isWork_workEvents e he <;> rfl

/-- A call is over, or has the store and needs no more store calls than so many. -/
def EndsWithin (s : LiveCache σ) (c n : Nat) : Prop :=
  (∃ command hasTime handle r, s.calls[c]? = some ⟨command, hasTime, .working handle r, none⟩ ∧
    r.work.turnsLeft ≤ n) ∨
  ∃ command hasTime answer, s.calls[c]? = some ⟨command, hasTime, .over answer, none⟩

omit [Store σ] in
theorem EndsWithin.isSome_answer? (h : s.EndsWithin c 0) : (s.answer? c).isSome := by
  rcases h with ⟨command, hasTime, handle, r, -, hnone⟩ | ⟨command, hasTime, answer, hover⟩
  · exact absurd hnone (Nat.not_le_of_gt r.work.turnsLeft_pos)
  · rw [answer?_of_over hover]
    rfl

theorem EndsWithin.turn {n : Nat} (h : s.EndsWithin c (n + 1)) (time : Duration) :
    (s.run [.advance time, .perform c]).EndsWithin c n := by
  have hcalls : (s.step (.advance time)).calls = s.calls := by
    simp only [step]
    split <;> rfl
  rw [run_cons, run_cons, run_nil]
  rcases h with ⟨command, hasTime, handle, r, hworking, hturns⟩ | ⟨command, hasTime, answer, hover⟩
  · rw [← hcalls] at hworking
    have hafter := calls_perform_of_working hworking
    unfold delivered at hafter
    split at hafter
    · rename_i work hnext
      have hless := Work.turnsLeft_resume hnext
      exact .inl ⟨command, hasTime, handle, _, hafter, by simp only; omega⟩
    · exact .inr ⟨command, hasTime, _, hafter⟩
  · rw [← hcalls] at hover
    exact .inr ⟨command, hasTime, answer, by rw [step, perform_of_over hover]; exact hover⟩

theorem EndsWithin.work {pauses : Nat → Duration} {turns : List Nat}
    (h : s.EndsWithin c turns.length) :
    (s.run (turns.flatMap fun i => [.advance (pauses i), .perform c])).EndsWithin c 0 := by
  induction turns generalizing s with
  | nil => exact h
  | cons i turns ih =>
    rw [List.flatMap_cons, run_append]
    exact ih (h.turn (pauses i))

theorem Gained.endsWithin {call : Call} {s' : LiveCache σ} (h : s.Gained c call s')
    (hchecked : call.IsChecked) : s'.EndsWithin c (List.range 5).length := by
  have hserved := h.served
  cases hchecked with
  | prepared command r =>
    exact .inl ⟨command, true, _, r, hserved, Nat.le_succ_of_le r.work.turnsLeft_le⟩
  | done command hasTime answer => exact .inr ⟨command, hasTime, answer, hserved⟩

/-- What a call does to a cache at rest, as far as its hold on the store goes. -/
structure Called (s : LiveCache σ) (reached : Bool) (events : List Event) : Prop where
  atRest : (s.run events).AtRest
  handle : (s.run events).handle = if reached then some (s.handle.getD 0) else s.handle
  factory : s.factoryCalls events = (!s.isOpen && reached).toNat
  length : (s.run events).calls.length = s.calls.length + 1
  answered : ((s.run events).answer? s.calls.length).isSome

omit [Store σ] in
/-- The factory hands out the same handle each time. -/
theorem getD_handle {reached : Bool}
    (h : t.handle = if reached then some (s.handle.getD 0) else s.handle) :
    t.handle.getD 0 = s.handle.getD 0 := by
  rw [h]
  cases reached <;> rfl

theorem Called.isOpen {reached : Bool} {events : List Event} (h : s.Called reached events) :
    (s.run events).isOpen = (s.isOpen || reached) := by
  rw [LiveCache.isOpen, LiveCache.isOpen, h.handle]
  cases reached with
  | true => exact (Bool.or_true _).symm
  | false => exact (Bool.or_false _).symm

variable {pauses : Nat → Duration}

/-- A call as it stands when it has been checked. -/
structure Begun (s : LiveCache σ) (command : Command) (hasTime : Bool) (s' : LiveCache σ) :
    Prop where
  call : s'.calls[s.calls.length]? = some ⟨command, hasTime, s.checked command hasTime, none⟩
  openingState : s'.openingState = s.openingState
  findings : s'.findings = s.findings
  length : s'.calls.length = s.calls.length + 1

theorem begun (s : LiveCache σ) (command : Command) (hasTime : Bool) (pause : Duration) :
    s.Begun command hasTime (s.run (checkEvents s.calls.length command hasTime pause)) where
  call := by
    have hsame : (s.run (checkEvents s.calls.length command hasTime pause)).calls =
        ((s.start command hasTime).begin s.calls.length).calls := by
      simp only [checkEvents, run_cons, run_nil, step]
      split <;> rfl
    rw [hsame, calls_begin_start]
  openingState := openingState_run isApart_checkEvents
  findings := findings_run (by simp [checkEvents, Event.isReply])
  length := by
    have hlater : ((s.step (.start command hasTime)).run
        [.begin s.calls.length, .advance pause]).calls.length =
          (s.step (.start command hasTime)).calls.length := length_calls_run (by simp)
    exact hlater.trans List.length_append

theorem called (hrest : s.AtRest) (command : Command) (hasTime : Bool) (pauses : Nat → Duration) :
    s.Called (s.reaches (.call command hasTime pauses))
    (s.moveEvents (.call command hasTime pauses)) := by
  have hbegun := s.begun command hasTime (pauses 0)
  generalize hs₁ : s.run (checkEvents s.calls.length command hasTime (pauses 0)) = s₁ at hbegun
  have hhandle : s₁.handle = s.handle := congrArg (·.1) hbegun.openingState
  have hisOpen : s₁.isOpen = s.isOpen := congrArg Option.isSome hhandle
  have hattempts : s₁.attempts = s.attempts := congrArg (·.2.2.2) hbegun.openingState
  have hgained := gained (atRest_of_openingState hrest hbegun.openingState) hbegun.call
    isChecked_checked
  have hreached := s.isPrepared_checked command hasTime pauses
  have hgainedHandle := hgained.handle
  have hgainedFactory := hgained.factory
  rw [hhandle, hreached] at hgainedHandle
  rw [hisOpen, hreached] at hgainedFactory
  rw [hattempts] at hgained hgainedHandle hgainedFactory
  generalize hs₂ : s₁.run (gainEvents s.calls.length s.attempts.length) = s₂
    at hgained hgainedHandle
  have hworked : (s₂.run (workEvents s.calls.length fun i => pauses (i + 1))).openingState =
      s₂.openingState := openingState_run isApart_workEvents
  have hrun : s.run (s.moveEvents (.call command hasTime pauses)) =
      s₂.run (workEvents s.calls.length fun i => pauses (i + 1)) := by
    rw [moveEvents, run_append, run_append, hs₁, hs₂]
  have hlength : (s₂.run (workEvents s.calls.length fun i => pauses (i + 1))).calls.length =
      s₂.calls.length := by
    refine length_calls_run fun e he => ?_
    cases isWork_workEvents e he <;> simp
  have hlength' : s₂.calls.length = s₁.calls.length := by
    rw [← hs₂]
    exact length_calls_run (by simp [gainEvents])
  exact {
    atRest := by
      rw [hrun]
      exact atRest_of_openingState hgained.settled.atRest hworked
    handle := by
      rw [hrun, ← hgainedHandle]
      exact congrArg (·.1) hworked
    factory := by
      rw [moveEvents, factoryCalls_append, factoryCalls_append, hs₁, hs₂, hgainedFactory,
        factoryCalls_of_isApart isApart_checkEvents, factoryCalls_of_isApart isApart_workEvents,
        Nat.zero_add, Nat.add_zero]
    length := by rw [hrun, hlength, hlength', hbegun.length]
    answered := by
      rw [hrun]
      exact (EndsWithin.work (hgained.endsWithin isChecked_checked)).isSome_answer? }

/-! ## Two runs -/

/-- Two caches at rest agree in all but their hold on the store. There is one handle for both. -/
structure Twin (s t : LiveCache σ) : Prop where
  cache : s.cache = t.cache
  now : s.now = t.now
  store : s.store = t.store
  findings : s.findings = t.findings
  length : s.calls.length = t.calls.length
  handle : s.handle.getD 0 = 0
  handle' : t.handle.getD 0 = 0
  atRest : s.AtRest
  atRest' : t.AtRest

theorem Twin.begun (h : Twin s t) (command : Command) (hasTime : Bool) (pause : Duration) :
    Abreast s.calls.length (s.run (checkEvents s.calls.length command hasTime pause))
      (t.run (checkEvents s.calls.length command hasTime pause)) := by
  have hcalls : ((t.start command hasTime).begin s.calls.length).calls[s.calls.length]? =
      some ⟨command, hasTime, s.checked command hasTime, none⟩ := by
    rw [h.length, calls_begin_start, checked, checked, h.cache, h.now]
  have hbegin : ∀ u : LiveCache σ,
      ((u.step (.start command hasTime)).step (.begin s.calls.length)).surroundings =
        u.surroundings :=
    fun u => (surroundings_step rfl (by simp)).trans (surroundings_step rfl (by simp))
  have hfindings : ∀ u : LiveCache σ,
      ((u.step (.start command hasTime)).step (.begin s.calls.length)).findings = u.findings :=
    fun u => (findings_step rfl).trans (findings_step rfl)
  have hsame : s.surroundings = t.surroundings := Prod.ext h.store h.now
  have hsurroundings := (hbegin s).trans (hsame.trans (hbegin t).symm)
  exact Abreast.advance {
    cache := by rw [cache_step, cache_step, cache_step, cache_step, h.cache]
    now := congrArg Prod.snd hsurroundings
    store := congrArg Prod.fst hsurroundings
    findings := by rw [hfindings, hfindings, h.findings]
    call := calls_begin_start.trans hcalls.symm } pause

theorem Abreast.gained {call : Call} {s' t' : LiveCache σ} (h : Abreast c s t)
    (hs : s.Gained c call s') (ht : t.Gained c call t')
    (hhandle : s.handle.getD 0 = t.handle.getD 0) : Abreast c s' t' where
  cache := by rw [hs.settled.cache, ht.settled.cache, h.cache]
  now := by rw [hs.settled.now, ht.settled.now, h.now]
  store := by rw [hs.settled.store, ht.settled.store, h.store]
  findings := by rw [hs.findings, ht.findings, h.findings]
  call := by rw [hs.served, ht.served, hhandle]

/-- **Whether the store is open or not makes no difference to a call.** -/
theorem Twin.abreast (h : Twin s t) (command : Command) (hasTime : Bool)
    (pauses : Nat → Duration) :
    Abreast s.calls.length (s.move (.call command hasTime pauses))
      (t.move (.call command hasTime pauses)) := by
  have hs := s.begun command hasTime (pauses 0)
  have ht := t.begun command hasTime (pauses 0)
  have hbegun := h.begun command hasTime (pauses 0)
  simp only [move, moveEvents, run_append]
  rw [← h.length] at ht ⊢
  generalize s.run (checkEvents s.calls.length command hasTime (pauses 0)) = s₁ at hs hbegun ⊢
  generalize t.run (checkEvents s.calls.length command hasTime (pauses 0)) = t₁ at ht hbegun ⊢
  have hattempts : s₁.attempts = s.attempts := congrArg (·.2.2.2) hs.openingState
  have hattempts' : t₁.attempts = t.attempts := congrArg (·.2.2.2) ht.openingState
  rw [← hattempts, ← hattempts']
  have hgained := LiveCache.gained (atRest_of_openingState h.atRest hs.openingState) hs.call
    isChecked_checked
  have hgained' := LiveCache.gained (atRest_of_openingState h.atRest' ht.openingState)
    (hbegun.call.symm.trans hs.call) isChecked_checked
  have hhandle : s₁.handle = s.handle := congrArg (·.1) hs.openingState
  have hhandle' : t₁.handle = t.handle := congrArg (·.1) ht.openingState
  have hsame : s₁.handle.getD 0 = t₁.handle.getD 0 := by
    rw [hhandle, hhandle', h.handle, h.handle']
  exact (hbegun.gained hgained hgained' hsame).run isWork_workEvents

theorem Twin.call (h : Twin s t) :
    Twin (s.move (.call command hasTime pauses)) (t.move (.call command hasTime pauses)) := by
  have habreast := h.abreast command hasTime pauses
  have hs := called h.atRest command hasTime pauses
  have ht := called h.atRest' command hasTime pauses
  exact {
    cache := habreast.cache
    now := habreast.now
    store := habreast.store
    findings := habreast.findings
    length := hs.length.trans ((congrArg Nat.succ h.length).trans ht.length.symm)
    handle := (getD_handle hs.handle).trans h.handle
    handle' := (getD_handle ht.handle).trans h.handle'
    atRest := hs.atRest
    atRest' := ht.atRest }

theorem Twin.answer (h : Twin s t) :
    (s.move (.call command hasTime pauses)).answer? s.calls.length =
      (t.move (.call command hasTime pauses)).answer? t.calls.length := by
  rw [answer?, answer?, ← h.length, (h.abreast command hasTime pauses).call]

omit [Store σ] in
theorem Twin.reaches (h : Twin s t) (m : Move) : s.reaches m = t.reaches m := by
  cases m with
  | call => rw [LiveCache.reaches, LiveCache.reaches, h.cache, h.now]
  | close | wait => rfl

theorem Twin.wait (h : Twin s t) (time : Duration) :
    Twin (s.move (.wait time)) (t.move (.wait time)) := by
  simp only [move, moveEvents, run_cons, run_nil, step]
  rw [← h.now]
  split
  · exact ⟨h.cache, rfl, h.store, h.findings, h.length, h.handle, h.handle', h.atRest, h.atRest'⟩
  · exact h

/-- A close only gives up the store. -/
theorem Twin.close (h : Twin s t) : Twin (s.move .close) t := by
  simp only [move, moveEvents, run_cons, run_nil, step, LiveCache.close]
  split <;>
  exact ⟨h.cache, h.now, h.store, h.findings, h.length, rfl, h.handle', fun _ => rfl, h.atRest'⟩

/-! ## All moves -/

theorem Twin.moves (h : Twin s t) (ms : List Move) :
    Twin (s.moves ms) (t.moves (withoutCloses ms)) := by
  induction ms generalizing s t with
  | nil => exact h
  | cons m ms ih =>
    cases m with
    | call command hasTime pauses => exact ih h.call
    | close => exact ih h.close
    | wait time => exact ih (h.wait time)

theorem Twin.answers (h : Twin s t) (ms : List Move) :
    s.moveAnswers ms = t.moveAnswers (withoutCloses ms) := by
  induction ms generalizing s t with
  | nil => rfl
  | cons m ms ih =>
    cases m with
    | call command hasTime pauses => exact List.cons_eq_cons.2 ⟨h.answer, ih h.call⟩
    | close => exact ih h.close
    | wait time => exact ih (h.wait time)

theorem Twin.traced (h : Twin s t) (ms : List Move) :
    (s.traced ms).filter (fun m => !m.1.isClose) = t.traced (withoutCloses ms) := by
  induction ms generalizing s t with
  | nil => rfl
  | cons m ms ih =>
    cases m with
    | call command hasTime pauses =>
      exact List.cons_eq_cons.2 ⟨congrArg _ (h.reaches _), ih h.call⟩
    | close => exact ih h.close
    | wait time => exact List.cons_eq_cons.2 ⟨rfl, ih (h.wait time)⟩

theorem atRest_wait (hrest : s.AtRest) (time : Duration) : (s.move (.wait time)).AtRest :=
  atRest_of_openingState hrest (openingState_step_of_isApart (e := .advance time) rfl)

theorem isSome_of_mem_moveAnswers (hrest : s.AtRest) {ms : List Move}
    {answer : Option (Except CacheFault Answer)} (h : answer ∈ s.moveAnswers ms) :
    answer.isSome := by
  induction ms generalizing s with
  | nil => cases h
  | cons m ms ih =>
    cases m with
    | call command hasTime pauses =>
      have hcalled := called hrest command hasTime pauses
      obtain rfl | hlater := List.mem_cons.1 h
      · exact hcalled.answered
      · exact ih hcalled.atRest hlater
    | close => exact ih (fun _ => rfl) h
    | wait time => exact ih (atRest_wait hrest time) h

/-- A move that is no close belongs to the first stretch of the moves from there. -/
theorem splitOnP_traced_cons {m : Move} {ms : List Move} {first : List (Move × Bool)}
    {others : List (List (Move × Bool))} (hm : m.isClose = false)
    (hsplit : (s.traced (m :: ms)).splitOnP (·.1.isClose) = first :: others) :
    ∃ rest, first = (m, s.reaches m) :: rest ∧
      ((s.move m).traced ms).splitOnP (·.1.isClose) = rest :: others := by
  rw [traced, List.splitOnP_cons_eq_if_modifyHead, if_neg (by simp [hm])] at hsplit
  cases hrest : ((s.move m).traced ms).splitOnP (·.1.isClose) with
  | nil => exact absurd hrest (List.splitOnP_ne_nil _ _)
  | cons rest others' =>
    rw [hrest] at hsplit
    obtain ⟨rfl, rfl⟩ := List.cons_eq_cons.1 hsplit
    exact ⟨rest, rfl, rfl⟩

/-- The factory is called once in each stretch in which it is needed, but in the first one only if
the store was not open before. -/
theorem openings_eq (hrest : s.AtRest) (ms : List Move) {first : List (Move × Bool)}
    {others : List (List (Move × Bool))}
    (hsplit : (s.traced ms).splitOnP (·.1.isClose) = first :: others) :
    s.openings ms = (!s.isOpen && first.any (·.2)).toNat + others.countP (·.any (·.2)) := by
  induction ms generalizing s first others with
  | nil =>
    cases hsplit
    simp [openings]
  | cons m ms ih =>
    cases m with
    | call command hasTime pauses =>
      obtain ⟨rest, rfl, hrest'⟩ := splitOnP_traced_cons rfl hsplit
      have hcalled := called hrest command hasTime pauses
      rw [openings, hcalled.factory, move, ih hcalled.atRest hrest', hcalled.isOpen, List.any_cons]
      cases s.isOpen <;> cases s.reaches (.call command hasTime pauses) <;> simp
    | close =>
      have hclose : (Move.close, s.reaches .close).1.isClose = true := rfl
      rw [traced, List.splitOnP_cons_eq_if_modifyHead, if_pos hclose] at hsplit
      obtain ⟨rfl, hothers⟩ := List.cons_eq_cons.1 hsplit
      cases hnext : ((s.move .close).traced ms).splitOnP (·.1.isClose) with
      | nil => exact absurd hnext (List.splitOnP_ne_nil _ _)
      | cons first' others' =>
        have hclosed : (s.move .close).isOpen = false := rfl
        have hfactory : s.factoryCalls (s.moveEvents .close) = 0 := rfl
        rw [openings, hfactory, ih (fun _ => rfl) hnext, hclosed, ← hothers, hnext,
          List.countP_cons]
        cases first'.any (·.2) <;> simp [Nat.add_comm]
    | wait time =>
      obtain ⟨rest, rfl, hrest'⟩ := splitOnP_traced_cons rfl hsplit
      have hisOpen : (s.move (.wait time)).isOpen = s.isOpen :=
        congrArg Option.isSome (handle_step_of_isApart (e := .advance time) rfl)
      have hfactory : s.factoryCalls (s.moveEvents (.wait time)) = 0 := rfl
      have hreaches : s.reaches (.wait time) = false := rfl
      rw [openings, hfactory, ih (atRest_wait hrest time) hrest', hisOpen, List.any_cons, hreaches,
        Nat.zero_add, Bool.false_or]

omit [Store σ] in
/-- But for the operations, what is counted are the findings. -/
theorem counters_eq : { Counters.ofJournal s.journal with operations := [] } =
    Counters.ofJournal s.findings := by
  have hcount : ∀ (journal : List Remark) (counters : Counters),
      { journal.foldl (fun c r => c.count r.notice) counters with operations := [] } =
        (journal.filter (·.notice.isFinding)).foldl (fun c r => c.count r.notice)
          { counters with operations := [] } := by
    intro journal
    induction journal with
    | nil => exact fun _ => rfl
    | cons remark journal ih =>
      intro counters
      obtain ⟨context, notice⟩ := remark
      cases notice <;> exact ih _
  exact hcount s.journal {}

/-- How a run compares with the same run without its closes. -/
structure Reopened (s : LiveCache σ) (ms : List Move) : Prop where
  /-- Every call is over and gives the answer that it would have given. -/
  answers : s.moveAnswers ms = s.moveAnswers (withoutCloses ms)
  answered : ∀ answer ∈ s.moveAnswers ms, answer.isSome
  /-- The store is the same, with its values, revisions and deadlines. -/
  store : (s.moves ms).store = (s.moves (withoutCloses ms)).store
  /-- All is counted that would have been counted of reads and renewals. -/
  counters : { Counters.ofJournal (s.moves ms).journal with operations := [] } =
    { Counters.ofJournal (s.moves (withoutCloses ms)).journal with operations := [] }
  /-- The same calls need the store. -/
  traced : (s.traced ms).filter (fun m => !m.1.isClose) = s.traced (withoutCloses ms)
  /-- The factory is called once in each stretch between closes in which a call needs the store. -/
  openings : s.openings ms = ((s.traced ms).splitOnP (·.1.isClose)).countP (·.any (·.2))

/-- **Closing and reopening is transparent**, but for the calls of the factory. -/
theorem reopening_run (cache : Cache) (backend : Backend) (store : σ) (now : Instant)
    (ms : List Move) : Reopened { cache, backend, store, now } ms := by
  have hrest : ({ cache, backend, store, now } : LiveCache σ).AtRest := fun _ => rfl
  have htwin : Twin ({ cache, backend, store, now } : LiveCache σ) { cache, backend, store, now } :=
    ⟨rfl, rfl, rfl, rfl, rfl, rfl, rfl, hrest, hrest⟩
  exact {
    answers := htwin.answers ms
    answered := fun _ => isSome_of_mem_moveAnswers hrest
    store := (htwin.moves ms).store
    counters := by rw [counters_eq, counters_eq, (htwin.moves ms).findings]
    traced := htwin.traced ms
    openings := by
      cases hsplit :
        (LiveCache.traced { cache, backend, store, now } ms).splitOnP (·.1.isClose) with
      | nil => exact absurd hsplit (List.splitOnP_ne_nil _ _)
      | cons first others =>
        rw [openings_eq hrest ms hsplit, List.countP_cons]
        cases first.any (·.2) <;> simp [isOpen, Nat.add_comm] }

/-- Two of the stretches between these closes need the store. The last call is refused. -/
example :
    let still : Nat → Duration := fun _ => ⟨0, by decide⟩
    openings { backend := ⟨"cache", false⟩, store := ({} : MemoryStore), now := default }
      [.close, .call (.set "k" [1] {}) true still, .close, .call (.get "k") true still, .close,
        .call (.get "") true still] = 2 := by
  decide +kernel

end LiveCache

end SlidingCache
