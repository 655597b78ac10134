import SlidingCache.Proofs.Expiration
import SlidingCache.Proofs.Live.SingleFlight
import SlidingCache.Proofs.Shared.Bounds

/-!
# Reading a live entry

What a reader of a live entry with a window does while others read it too and the clock stands
still. He writes back the value that he has fetched, so the value stays, and what changes is the
revision and the deadline. A write that finds another revision than the one fetched has lost against
a reader who has moved the deadline to the same instant: that is why he may give up after the second
loss. `ReadStage.IsReading` says so of every stage: the revision that was fetched is still there, or
the deadline has been moved.

`ReadStage.reading_performed` is one turn of a reader, `LiveCache.attends_step` what an event makes
of a call, and `LiveCache.slot_step` what it makes of the entry.
-/

namespace SlidingCache

open LawfulStore
open StoreCall (deadlineOf)

/-! ## Live entries -/

theorem Instant.le?_eq_ok_true {i j : Instant} (h : i.le? j = .ok true) :
    i.isAware = j.isAware ∧ i.utcUs ≤ j.utcUs := by
  obtain ⟨order, horder, -⟩ := Chain.map_eq_ok.1 h
  have haware := (compare?_eq_ok_iff.1 horder).1
  rw [le?_eq haware] at h
  exact ⟨haware, of_decide_eq_true (Except.ok.inj h)⟩

/-- The time to live that a read starts: the window, cut off at the bound. -/
def Entry.renewal? (e : Entry) (now : Instant) : Option Duration :=
  e.sliding.map fun window => match e.absolute with
    | some bound => min window (bound.since now)
    | none => window

/-- What readers have to do with: the value under a key, and its payload and the time to live that
they find in it. -/
structure Target where
  key : Text
  value : Bytes
  payload : Bytes
  ttl : Duration

/-- The value is an entry with a window that is live, and the calendar has the deadline to which a
read moves it. -/
structure Target.Live (t : Target) (now : Instant) : Prop where
  legal : StoreKey.IsLegal t.key
  entry : ∃ entry window, Entry.decode t.value = .ok entry ∧ entry.payload = t.payload ∧
    entry.isExpired now = .ok false ∧ entry.sliding = some window ∧
      renewalTtl entry.absolute window now = .ok t.ttl
  room : t.ttl.isPositive → now.reading + t.ttl.milliseconds * 1000 < calendarUs

theorem Target.live_of_entry {key : Text} {value : Bytes} {entry : Entry} {now : Instant}
    {ttl : Duration} (hlegal : StoreKey.IsLegal key) (hdecode : Entry.decode value = .ok entry)
    (httl : entry.renewal? now = some ttl)
    (hbound : ∀ bound ∈ entry.absolute, now.le? bound = .ok true)
    (hroom : ttl.isPositive → now.reading + ttl.milliseconds * 1000 < calendarUs) :
    (⟨key, value, entry.payload, ttl⟩ : Target).Live now := by
  obtain ⟨window, hwindow, httl⟩ := Option.map_eq_some_iff.1 httl
  refine ⟨hlegal, ⟨entry, window, hdecode, rfl, ?_, hwindow, ?_⟩, hroom⟩
  · cases habsolute : entry.absolute with
    | none => rw [Entry.isExpired, habsolute]
    | some bound =>
      obtain ⟨haware, hle⟩ := Instant.le?_eq_ok_true (hbound bound habsolute)
      rw [Entry.isExpired_eq habsolute haware, decide_eq_false (Int.not_lt.2 hle)]
  · cases habsolute : entry.absolute with
    | none =>
      rw [habsolute] at httl
      exact congrArg Except.ok httl
    | some bound =>
      obtain ⟨haware, -⟩ := Instant.le?_eq_ok_true (hbound bound habsolute)
      rw [habsolute] at httl
      rw [renewalTtl, Timeline.since?_instant, Instant.since?_eq haware.symm]
      exact congrArg Except.ok httl

/-! ## One turn -/

section
variable {σ : Type} [Store σ]

/-- An access that has moved the deadline: the value was written over a revision with a new time to
live. -/
def Access.Renews (a : Access σ) (t : Target) : Prop :=
  a.isAccepted ∧ ∃ n, a.call = .update t.key t.value n (some t.ttl)

theorem Access.Renews.key_eq {a : Access σ} {t : Target} (h : a.Renews t) : a.call.key = t.key := by
  obtain ⟨-, n, hcall⟩ := h
  rw [hcall]
  rfl

end

namespace ReadStage

variable {t : Target} {now : Instant} {moved moved' : Prop} {n n' : Revision} {stage : ReadStage}

/-- Where a reader may be while the target has revision `n`, and `moved` says whether the deadline
has been moved. -/
def IsReading (t : Target) (moved : Prop) (n : Revision) : ReadStage → Prop
  | fetching => True
  | renewing payload found ttl last =>
    payload = t.payload ∧ found.value = t.value ∧ ttl = t.ttl ∧ t.ttl.isPositive ∧
      (found.revision = n ∨ moved) ∧ (last → moved)
  | refetching payload => payload = t.payload ∧ moved
  | deleting _ | deletingAgain .. => False

/-- The deadline is not moved back, and a new revision means that it has been moved. -/
theorem IsReading.mono (h : stage.IsReading t moved n) (hmoved : moved → moved')
    (hn : n' = n ∨ moved') : stage.IsReading t moved' n' := by
  cases stage with
  | fetching => exact trivial
  | renewing payload found ttl last =>
    obtain ⟨hpayload, hvalue, httl, hpos, hrevision, hlast⟩ := h
    refine ⟨hpayload, hvalue, httl, hpos, ?_, fun hl => hmoved (hlast hl)⟩
    rcases hn with rfl | hmoved'
    · exact hrevision.imp_right hmoved
    · exact .inr hmoved'
  | refetching payload => exact ⟨h.1, hmoved h.2⟩
  | deleting | deletingAgain => exact h

/-- Where a reader gets by a turn: to another stage, or to his end with the payload. -/
def Reaches (t : Target) (moved : Prop) (n : Revision) :
    ReadStage ⊕ Except CacheFault (Option Bytes) → Prop
  | .inl next => next.IsReading t moved n
  | .inr result => result = .ok (some t.payload) ∧ (t.ttl.isPositive → moved)

theorem Reaches.mono {next : ReadStage ⊕ Except CacheFault (Option Bytes)}
    (h : Reaches t moved n next) (hmoved : moved → moved') : Reaches t moved' n next := by
  cases next with
  | inl next => exact IsReading.mono h hmoved (.inl rfl)
  | inr result => exact ⟨h.1, fun hpos => hmoved (h.2 hpos)⟩

theorem reaches_renew {notices : List Notice} {entry : Entry} {window : Duration} {found : Held}
    {last : Bool} (hwindow : entry.sliding = some window)
    (httl : renewalTtl entry.absolute window now = .ok t.ttl) (hvalue : found.value = t.value)
    (hrevision : found.revision = n) (hlast : last → moved) :
    Reaches t moved n (renew notices t.payload found entry last now).next := by
  simp only [renew, hwindow, httl]
  split
  · rename_i hpos
    exact ⟨rfl, hvalue, rfl, hpos, .inl hrevision, hlast⟩
  · rename_i hpos
    exact ⟨rfl, fun h => absurd h hpos⟩

theorem reaches_fetched {found : Held} (ht : t.Live now) (hvalue : found.value = t.value)
    (hrevision : found.revision = n) : Reaches t moved n (fetched now (some found)).next := by
  obtain ⟨entry, window, hdecode, hpayload, hexpired, hwindow, httl⟩ := ht.entry
  simp only [fetched, hvalue, hdecode, hexpired, hpayload]
  exact reaches_renew hwindow httl hvalue hrevision fun h => absurd h Bool.false_ne_true

theorem reaches_refetched {found : Held} (ht : t.Live now) (hvalue : found.value = t.value)
    (hrevision : found.revision = n) (hmoved : moved) :
    Reaches t moved n (refetched t.payload now (some found)).next := by
  obtain ⟨entry, window, hdecode, -, hexpired, hwindow, httl⟩ := ht.entry
  simp only [refetched, hvalue, hdecode, hexpired]
  exact reaches_renew hwindow httl hvalue hrevision fun _ => hmoved

end ReadStage

/-- What is left under the key of the target: the slot as it was, or, if this `renews` it, the same
value with a new deadline. -/
def Target.Left (t : Target) (now : Instant) (before after : Slot) (renews : Prop) : Prop :=
  ¬ renews ∧ after = before ∨
    renews ∧ after.value = t.value ∧ after.deadline = deadlineOf (some t.ttl) now

section
variable {σ : Type} [Store σ] [LawfulStore σ]
variable {s : σ} {now : Instant} {t : Target} {moved : Prop} {y : Slot} {stage : ReadStage}

/-- The slot of the target after the call of a reader, and where it gets him. -/
structure ReadStage.Advances (t : Target) (s : σ) (now : Instant) (moved : Prop) (y : Slot)
    (stage : ReadStage) (y' : Slot) : Prop where
  slot : slot? (Store.perform now (stage.call t.key) s).2 now t.key = some y'
  left : t.Left now y y' ((⟨s, now, stage.call t.key⟩ : Access σ).Renews t)
  reaches : ReadStage.Reaches t
    (moved ∨ (⟨s, now, stage.call t.key⟩ : Access σ).Renews t) y'.revision
    (stage.resume t.key now (Store.perform now (stage.call t.key) s).1).next

omit [LawfulStore σ] in
theorem not_renews_get : ¬ (⟨s, now, .get t.key⟩ : Access σ).Renews t := by
  rintro ⟨-, n, hcall⟩
  cases hcall

namespace ReadStage

/-- A write loses only against a reader who has moved the deadline. -/
theorem advances_renewing {payload : Bytes} {found : Held} {ttl : Duration} {last : Bool}
    (hs : Valid s) (ht : t.Live now) (hy : slot? s now t.key = some y)
    (h : (renewing payload found ttl last).IsReading t moved y.revision) :
    ∃ y', Advances t s now moved y (renewing payload found ttl last) y' := by
  obtain ⟨rfl, hvalue, rfl, hpos, hrevision, -⟩ := h
  have httl : ∀ d ∈ some t.ttl, d.isPositive ∧ now.reading + d.milliseconds * 1000 < calendarUs := by
    rintro d ⟨⟩
    exact ⟨hpos, ht.room hpos⟩
  cases hreply : (Store.perform now (.update t.key found.value found.revision (some t.ttl)) s).1 with
  | ok n =>
    have hrenews : (⟨s, now, (renewing t.payload found t.ttl last).call t.key⟩ : Access σ).Renews t :=
      ⟨by rw [Access.isAccepted, ReadStage.call, hreply]; rfl, found.revision,
        by rw [ReadStage.call, hvalue]⟩
    refine ⟨⟨t.value, n, deadlineOf (some t.ttl) now⟩, ?_, .inr ⟨hrenews, rfl, rfl⟩, ?_⟩
    · rw [ReadStage.call, slot?_of_update_ok hs hreply, View.set_self, hvalue]
    · simp only [ReadStage.call, hreply]
      exact ⟨rfl, fun _ => .inr hrenews⟩
  | error fault =>
    obtain ⟨rfl, hother, hview⟩ := conflict_of_update_error hs ht.legal httl hreply
    have hmoved : moved := hrevision.resolve_left fun heq => hother (by rw [hy, heq]; rfl)
    refine ⟨y, ?_, .inl ⟨?_, rfl⟩, ?_⟩
    · rw [ReadStage.call, hview, hy]
    · rintro ⟨haccepted, -⟩
      rw [Access.isAccepted, ReadStage.call, hreply] at haccepted
      cases haccepted
    · simp only [ReadStage.call, hreply]
      cases last with
      | true => exact ⟨rfl, fun _ => .inl hmoved⟩
      | false => exact ⟨rfl, .inl hmoved⟩

/-- **One turn of a reader**: he gets on or ends with the payload, and the slot is the same as
before, or he has moved its deadline. -/
theorem reading_performed (hs : Valid s) (ht : t.Live now) (hy : slot? s now t.key = some y)
    (hvalue : y.value = t.value) (h : stage.IsReading t moved y.revision) :
    ∃ y', Advances t s now moved y stage y' := by
  have hfetch : slot? (Store.perform now (.get t.key) s).2 now t.key = some y := by
    rw [slot?_perform_get hs, hy]
  have hreply : (Store.perform now (.get t.key) s).1 = .ok (some y.held) := by
    rw [perform_get hs ht.legal, hy]
    rfl
  cases stage with
  | fetching =>
    refine ⟨y, hfetch, .inl ⟨not_renews_get, rfl⟩, ?_⟩
    simp only [ReadStage.call, hreply]
    exact reaches_fetched ht hvalue rfl
  | refetching payload =>
    obtain ⟨rfl, hmoved⟩ := h
    refine ⟨y, hfetch, .inl ⟨not_renews_get, rfl⟩, ?_⟩
    simp only [ReadStage.call, hreply]
    exact reaches_refetched ht hvalue rfl (.inl hmoved)
  | renewing payload found ttl last => exact advances_renewing hs ht hy h
  | deleting | deletingAgain => exact h.elim

end ReadStage

end

/-! ## Calls -/

/-- An attempt that nobody has asked to stop and that has not failed. -/
def Attempt.isPromising (a : Attempt) : Bool :=
  !a.stopping && match a.stage with
    | .created | .opening | .ended (.opened _) => true
    | .ended _ => false

/-- A request makes its calls under its own key. -/
theorem Request.Informed.key_call {σ : Type} [Store σ] [LawfulStore σ] {s : σ} {now : Instant}
    {r : Request} (h : r.Informed s now) : r.call.key = r.key := by
  rcases r with ⟨operation, key, work⟩
  cases work with
  | read stage => cases stage <;> rfl
  | write call =>
    rcases h with ⟨value, ttl, hcall⟩ | hcall
    · exact congrArg StoreCall.key (hcall : call = _)
    · exact congrArg StoreCall.key (hcall : call = _)

def Request.IsFetch (t : Target) (r : Request) : Prop := r.key = t.key ∧ r.work = .read .fetching

/-- Where a call may be that reads the target. -/
def CallStage.IsReading (t : Target) (moved : Prop) (n : Revision) (attempts : List Attempt)
    (command : Command) : CallStage → Prop
  | .created => True
  | .prepared r => r.IsFetch t
  | .joined a r => r.IsFetch t ∧ ∃ attempt, attempts[a]? = some attempt ∧ attempt.isPromising
  | .working _ r =>
    r.key = t.key ∧ ∃ stage : ReadStage, r.work = .read stage ∧ stage.IsReading t moved n
  | .over answer =>
    answer = command.answer (.ok (some t.payload)) ∧ (t.ttl.isPositive → moved)
  | .dropped => False

theorem CallStage.IsReading.mono {t : Target} {moved moved' : Prop} {n n' : Revision}
    {attempts attempts' : List Attempt} {command : Command} {stage : CallStage}
    (h : stage.IsReading t moved n attempts command) (hmoved : moved → moved')
    (hn : n' = n ∨ moved')
    (hattempts : ∀ {a : Nat} {attempt : Attempt}, attempts[a]? = some attempt →
      attempt.isPromising → ∃ attempt', attempts'[a]? = some attempt' ∧ attempt'.isPromising) :
    stage.IsReading t moved' n' attempts' command := by
  cases stage with
  | created | prepared | dropped => exact h
  | joined a r =>
    obtain ⟨hfetch, attempt, ha, hpromising⟩ := h
    exact ⟨hfetch, hattempts ha hpromising⟩
  | working handle r =>
    obtain ⟨hr, stage, hwork, hreading⟩ := h
    exact ⟨hr, stage, hwork, hreading.mono hmoved hn⟩
  | _ => exact ⟨h.1, fun hpos => hmoved (h.2 hpos)⟩

/-- A call that has not been interrupted, and that reads if it is about the target. -/
structure Call.Attends (t : Target) (moved : Prop) (n : Revision) (cache : Cache)
    (attempts : List Attempt) (call : Call) : Prop where
  uninterrupted : call.interruption = none
  named : ∀ {r}, call.request? = some r → cache.storeKey call.command.key = .ok r.key
  reads : cache.storeKey call.command.key = .ok t.key →
    call.command.isRead ∧ call.hasTime ∧ call.stage.IsReading t moved n attempts call.command

/-- Whether an event of a cache disturbs nobody who reads a key: nobody gives up, time stands still,
no store call and no attempt to open the store is made to fail, no cache is closed, and whoever does
not read stays away from the key. -/
def Event.isQuiet (cache : Cache) (key : Text) : Event → Bool
  | .start command hasTime =>
    hasTime && (command.isRead || (cache.storeKey command.key).toOption != some key)
  | .rival call => call.expected?.isNone && call.key != key
  | .endAttempt _ outcome => outcome.handle?.isSome
  | .begin _ | .ask _ | .wake _ | .perform _ | .beginAttempt _ | .release _ => true
  | .refuse .. | .interrupt .. | .close | .advance _ => false

theorem Event.isFair_of_isQuiet {cache : Cache} {key : Text} {e : Event} (h : e.isQuiet cache key) :
    e.isFair := by
  cases e with
  | rival call =>
    simp only [isQuiet, Bool.and_eq_true] at h
    exact h.1
  | advance => cases h
  | _ => rfl

theorem Call.Attends.mono {t : Target} {moved moved' : Prop} {n n' : Revision} {cache : Cache}
    {attempts : List Attempt} {call : Call} (h : call.Attends t moved n cache attempts)
    (hmoved : moved → moved') (hn : n' = n ∨ moved') : call.Attends t moved' n' cache attempts where
  uninterrupted := h.uninterrupted
  named := h.named
  reads hkey := by
    obtain ⟨hread, htime, hstage⟩ := h.reads hkey
    exact ⟨hread, htime, hstage.mono hmoved hn fun ha hpromising => ⟨_, ha, hpromising⟩⟩

namespace LiveCache

variable {σ : Type} {s : LiveCache σ} {e : Event} {key : Text} {a c : Nat}

/-- Who waits for an attempt has not been interrupted. -/
def IsPatient (s : LiveCache σ) : Prop :=
  ∀ {c : Nat} {call : Call}, s.calls[c]? = some call → call.isWaiting → call.interruption = none

theorem isPromising_step [Store σ] {attempt : Attempt} (ha : s.attempts[a]? = some attempt)
    (h : attempt.isPromising) (hquiet : e.isQuiet s.cache key) (hpatient : s.IsPatient) :
    ∃ attempt', (s.step e).attempts[a]? = some attempt' ∧ attempt'.isPromising := by
  obtain ⟨attempt', ha', hstep⟩ := attemptStep_step (e := e) ha
  refine ⟨attempt', ha', ?_⟩
  simp only [Attempt.isPromising, Bool.and_eq_true, Bool.not_eq_true'] at h
  obtain ⟨hstopping, hstage⟩ := h
  cases hstep with
  | rest => simp only [Attempt.isPromising, hstopping, hstage]; rfl
  | begin => simp only [Attempt.isPromising, hstopping]; rfl
  | @finish outcome =>
    cases outcome with
    | opened handle => simp only [Attempt.isPromising, hstopping]; rfl
    | failed | cancelled => cases hquiet
  | close => cases hquiet
  | abandon _ _ hc hawaited hinterruption =>
    have hnone := hpatient hc (by rw [Call.isWaiting, hawaited]; rfl)
    rw [hnone] at hinterruption
    cases hinterruption

theorem isPromising_of_canBeJoined {attempt : Attempt} (h : attempt.canBeJoined) :
    attempt.isPromising := by
  rcases attempt with ⟨context, stage, stopping⟩
  cases stage with
  | ended outcome => cases h
  | created | opening => simpa [Attempt.canBeJoined, Attempt.isPromising, Attempt.hasEnded] using h

/-- The attempt that a call joins. -/
theorem isPromising_join [Store σ] {command : Command} {hasTime : Bool} {r : Request}
    (hc : s.calls[c]? = some ⟨command, hasTime, .prepared r, none⟩) (hopen : s.handle = none) :
    ∃ attempt, (s.step (.ask c)).attempts[s.current?.getD s.attempts.length]? = some attempt ∧
      attempt.isPromising := by
  cases hcurrent : s.current? with
  | none =>
    rw [(retried_step hopen hcurrent hc).1]
    exact ⟨_, List.getElem?_concat_length, rfl⟩
  | some a =>
    obtain ⟨attempt, ha, hjoin⟩ := (current?_eq_some_iff.1 hcurrent).2
    obtain ⟨attempt', ha', hstep⟩ := attemptStep_step (e := .ask c) ha
    cases hstep with
    | rest => exact ⟨attempt, ha', isPromising_of_canBeJoined hjoin⟩

section
variable [Store σ] [LawfulStore σ]
variable {t : Target} {moved : Prop} {y y' : Slot} {call call' : Call}

/-- The call after a turn of its read. -/
theorem isReading_delivered {handle : Handle} {operation : Operation} {stage : ReadStage}
    {now : Instant} {n : Revision} {command : Command} {attempts : List Attempt}
    {reply : Except StoreFault (stage.call t.key).Reply}
    (h : ReadStage.Reaches t moved n (stage.resume t.key now reply).next) :
    (delivered now command handle ⟨operation, t.key, .read stage⟩ reply).IsReading t moved n
      attempts command := by
  unfold delivered
  simp only [Work.resume]
  cases hnext : (stage.resume t.key now reply).next with
  | inl next =>
    rw [hnext] at h
    exact ⟨rfl, next, rfl, h⟩
  | inr result =>
    rw [hnext] at h
    obtain ⟨rfl, hmoved⟩ := h
    exact ⟨rfl, hmoved⟩

/-- Whether an event moves the deadline of the target. -/
def Renews (s : LiveCache σ) (t : Target) (e : Event) : Prop := ∃ a ∈ s.access? e, a.Renews t

/-- The stage of a reader after an event. -/
theorem isReading_step (hs : Valid s.store) (ht : t.Live s.now)
    (hy : slot? s.store s.now t.key = some y) (hvalue : y.value = t.value)
    (hy' : slot? (s.step e).store s.now t.key = some y') (hleft : y' = y ∨ moved ∨ s.Renews t e)
    (hquiet : e.isQuiet s.cache t.key) (hpatient : s.IsPatient) (hc : s.calls[c]? = some call)
    (hint : call.interruption = none) (hread : call.command.isRead) (htime : call.hasTime)
    (hkey : s.cache.storeKey call.command.key = .ok t.key)
    (h : call.stage.IsReading t moved y.revision s.attempts call.command)
    (hstep : CallStep s c call e call') :
    call'.stage.IsReading t (moved ∨ s.Renews t e) y'.revision (s.step e).attempts
      call.command := by
  have hrequest := Command.request_of_isRead s.now hread hkey
  have hn : y'.revision = y.revision ∨ moved ∨ s.Renews t e := hleft.imp_left (congrArg _)
  cases hstep with
  | rest =>
    exact h.mono .inl hn fun ha hpromising => isPromising_step ha hpromising hquiet hpatient
  | interrupt | refuse => cases hquiet
  | drop _ hi | turnBack _ hi | leave _ hi | breakOff _ hi => cases hint.symm.trans hi
  | reject _ _ hfault => cases hrequest.symm.trans hfault
  | prepare _ _ hok =>
    cases hrequest.symm.trans hok
    rw [htime]
    exact ⟨rfl, rfl⟩
  | @take handle r hstage =>
    rw [hstage] at h
    exact ⟨h.1, .fetching, h.2, trivial⟩
  | @join r hstage _ hopen =>
    rw [hstage] at h
    rcases call with ⟨command, hasTime, stage, interruption⟩
    simp only at hstage hint
    subst hstage hint
    exact ⟨h, isPromising_join hc hopen⟩
  | @wake a r attempt outcome hstage _ ha hended =>
    rw [hstage] at h
    obtain ⟨hfetch, attempt', ha', hpromising⟩ := h
    obtain rfl : attempt = attempt' := Option.some.inj (ha.symm.trans ha')
    cases outcome with
    | opened => exact ⟨hfetch.1, .fetching, hfetch.2, trivial⟩
    | failed | cancelled => simp [Attempt.isPromising, hended] at hpromising
  | @perform handle r hstage =>
    rw [hstage] at h
    rcases r with ⟨operation, k, work⟩
    obtain ⟨rfl, stage, rfl, hreading⟩ := h
    have ha : s.access? (.perform c) = some ⟨s.store, s.now, stage.call t.key⟩ := by
      rcases call with ⟨command, hasTime, before, interruption⟩
      simp only at hstage hint
      simp only [access?, hc, hstage, hint]
      rfl
    obtain ⟨y'', hadvances⟩ : ∃ y'', ReadStage.Advances t s.store s.now moved y stage y'' :=
      ReadStage.reading_performed hs ht hy hvalue hreading
    obtain rfl : y' = y'' := by
      have hslot := hadvances.slot
      rw [← (step_of_access? ha).2.1, hy'] at hslot
      exact Option.some.inj hslot
    have hrenews : (⟨s.store, s.now, stage.call t.key⟩ : Access σ).Renews t →
        s.Renews t (.perform c) := fun hrenews => ⟨_, ha, hrenews⟩
    exact isReading_delivered (hadvances.reaches.mono (Or.imp_right hrenews))

/-- **What an event makes of a call.** -/
theorem attends_step (hs : Valid s.store) (ht : t.Live s.now)
    (hy : slot? s.store s.now t.key = some y) (hvalue : y.value = t.value)
    (hy' : slot? (s.step e).store s.now t.key = some y') (hleft : y' = y ∨ moved ∨ s.Renews t e)
    (hquiet : e.isQuiet s.cache t.key) (hpatient : s.IsPatient) (hc : s.calls[c]? = some call)
    (h : call.Attends t moved y.revision s.cache s.attempts) (hstep : CallStep s c call e call') :
    call'.Attends t (moved ∨ s.Renews t e) y'.revision (s.step e).cache (s.step e).attempts where
  uninterrupted := by
    cases hstep with
    | interrupt => cases hquiet
    | _ => exact h.uninterrupted
  named {r'} hr' := by
    rw [cache_step, command_of_callStep hstep]
    rcases request?_cases hstep hr' with hr | hrequest | ⟨r, reply, work, hr, -, rfl⟩
    · exact h.named hr
    · obtain ⟨k, hk, hwork⟩ := Chain.bind_eq_ok.1 hrequest
      obtain ⟨work, -, ⟨⟩⟩ := Chain.bind_eq_ok.1 hwork
      exact Chain.mapError_eq_ok.1 hk
    · exact (h.named hr :)
  reads hkey := by
    rw [cache_step, command_of_callStep hstep] at hkey
    obtain ⟨hread, htime, hstage⟩ := h.reads hkey
    have htime' : call'.hasTime = call.hasTime := by cases hstep <;> rfl
    rw [command_of_callStep hstep, htime']
    exact ⟨hread, htime, isReading_step hs ht hy hvalue hy' hleft hquiet hpatient hc h.uninterrupted
      hread htime hkey hstage hstep⟩

/-- Every call was over before all this, or attends. -/
def Attended (s : LiveCache σ) (t : Target) (moved : Prop) (n : Revision) : Prop :=
  ∀ {c : Nat} {call : Call}, s.calls[c]? = some call →
    call.isOver ∨ call.Attends t moved n s.cache s.attempts

/-- The accesses that concern the target: a fetch, or a write of its value with a new time to
live. -/
theorem access?_of_key {a : Access σ} {n : Revision} (hinformed : s.Informed)
    (hattended : s.Attended t moved n) (hquiet : e.isQuiet s.cache t.key) (ha : s.access? e = some a)
    (hkey : a.call.key = t.key) : ∃ stage : ReadStage, stage.IsReading t moved n ∧
      a = ⟨s.store, s.now, stage.call t.key⟩ := by
  cases e with
  | perform c =>
    simp only [access?] at ha
    split at ha
    · rename_i command hasTime handle r hc
      cases ha
      rcases hattended hc with hover | hattends
      · cases hover
      · have hr : r.key = t.key := (hinformed hc rfl).key_call.symm.trans hkey
        obtain ⟨-, -, hr, stage, hwork, hreading⟩ := hattends.reads (hr ▸ hattends.named rfl)
        exact ⟨stage, hreading, by rw [Request.call, hwork, hr]; rfl⟩
    · cases ha
  | rival call =>
    cases ha
    simp only [Event.isQuiet, Bool.and_eq_true, bne_iff_ne] at hquiet
    exact absurd hkey hquiet.2
  | _ => cases ha

omit [LawfulStore σ] in
theorem now_step (hquiet : e.isQuiet s.cache key) : (s.step e).now = s.now := by
  cases ha : s.access? e with
  | some a => exact (step_of_access? ha).2.2
  | none =>
    refine congrArg Prod.snd (surroundings_step ha fun time he => ?_)
    rw [he] at hquiet
    cases hquiet

/-- **What an event makes of the target**: nothing, unless it moves the deadline. -/
theorem slot_step (hs : Valid s.store) (ht : t.Live s.now)
    (hy : slot? s.store s.now t.key = some y) (hvalue : y.value = t.value)
    (hinformed : s.Informed) (hattended : s.Attended t moved y.revision)
    (hquiet : e.isQuiet s.cache t.key) :
    ∃ y', slot? (s.step e).store s.now t.key = some y' ∧ t.Left s.now y y' (s.Renews t e) := by
  cases ha : s.access? e with
  | none =>
    have hrest := surroundings_step ha fun time he => by
      rw [he] at hquiet
      cases hquiet
    have hnone : ¬ s.Renews t e := by
      rintro ⟨a, hmem, -⟩
      rw [ha] at hmem
      cases hmem
    refine ⟨y, ?_, .inl ⟨hnone, rfl⟩⟩
    rw [show (s.step e).store = s.store from congrArg Prod.fst hrest, hy]
  | some a =>
    have hiff : s.Renews t e ↔ a.Renews t := by
      simp only [Renews, ha, Option.mem_some_iff, exists_eq_left']
    rw [(step_of_access? ha).2.1, hiff]
    by_cases hkey : a.call.key = t.key
    · obtain ⟨stage, hreading, rfl⟩ := access?_of_key hinformed hattended hquiet ha hkey
      obtain ⟨y', hadvances⟩ := ReadStage.reading_performed hs ht hy hvalue hreading
      exact ⟨y', hadvances.slot, hadvances.left⟩
    · refine ⟨y, ?_, .inl ⟨fun hrenews => hkey hrenews.key_eq, rfl⟩⟩
      rw [slot?_perform_of_ne hs (Ne.symm hkey), hy]

end

end LiveCache

end SlidingCache
