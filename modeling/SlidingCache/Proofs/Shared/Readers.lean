import SlidingCache.Proofs.Sequence.Calls
import SlidingCache.Proofs.Shared.Reading

/-!
# Readers of one entry

Any number of callers, of any caches, read a live entry with a window at one moment, in whatever
order their turns come. All of them get its payload (`Fleet.readers_run`), the value stays, and if
the entry has time left, the first of them to end has seen its deadline moved, by himself or by
another.

The invariant is `Fleet.Attended`: it says whether the deadline has been moved, and that every call
under way is at a stage that goes with that.
-/

namespace SlidingCache

open LawfulStore
open StoreCall (deadlineOf)

theorem Call.not_isWaiting_of_isOver {call : Call} (h : call.isOver) : ¬ call.isWaiting := by
  rcases call with ⟨command, hasTime, stage, interruption⟩
  cases stage with
  | created | prepared | joined | working => cases h
  | _ => exact Bool.false_ne_true

/-- What is over stays as it is, unless it is interrupted all the same. -/
theorem LiveCache.eq_of_isOver {σ : Type} [Store σ] {s : LiveCache σ} {c : Nat} {e : Event}
    {key : Text} {call call' : Call} (hover : call.isOver) (hquiet : e.isQuiet s.cache key)
    (hstep : CallStep s c call e call') : call' = call := by
  cases hstep with
  | rest => rfl
  | interrupt | refuse => cases hquiet
  | drop hstage | reject hstage | prepare hstage | take hstage | join hstage | wake hstage
  | perform hstage | turnBack hstage | leave hstage | breakOff hstage =>
    rw [Call.isOver, hstage] at hover
    cases hover

/-- The fault that a call has raised. -/
def Call.fault? (call : Call) : Option CacheFault := match call.stage with
  | .over (.error fault) => some fault
  | _ => none

theorem Call.stage_of_fault? {call : Call} {fault : CacheFault} (h : call.fault? = some fault) :
    call.stage = .over (.error fault) := by
  unfold fault? at h
  split at h
  · rename_i hstage
    cases h
    exact hstage
  · cases h

/-! ## Turns -/

/-- Whether an event gives a call with the store its turn. -/
def Event.isTurn (c : Nat) : Event → Bool
  | .perform d => d = c
  | _ => false

/-- A read that is over after so many turns of its own. -/
def Call.EndsWithin (n : Nat) (call : Call) : Prop :=
  call.isOver ∨ call.interruption = none ∧
    ∃ handle r stage, call.stage = .working handle r ∧ r.work = .read stage ∧ stage.rank < n

theorem LiveCache.endsWithin_delivered {n : Nat} {command : Command} {hasTime : Bool}
    {now : Instant} {handle : Handle} {r : Request} {stage : ReadStage}
    {reply : Except StoreFault r.call.Reply} (hwork : r.work = .read stage) (hrank : stage.rank < n) :
    Call.EndsWithin (n - 1) ⟨command, hasTime, delivered now command handle r reply, none⟩ := by
  unfold delivered
  cases hnext : (r.work.resume r.key now reply).next with
  | inr result => exact .inl rfl
  | inl work =>
    obtain ⟨stage', next, hread, rfl⟩ := Request.exists_stage_of_resume hnext
    obtain rfl : stage' = stage := by
      rw [hwork] at hread
      cases hread
      rfl
    have hless := Work.rank_resume hnext
    rw [hread] at hless
    simp only [Work.rank] at hless
    exact .inr ⟨rfl, handle, _, next, rfl, rfl, by omega⟩

/-- Every turn of a read brings it nearer to its end, and no other event takes it back. -/
theorem LiveCache.endsWithin_step {σ : Type} [Store σ] {s : LiveCache σ} {c n : Nat} {e : Event}
    {key : Text} {call : Call} (hc : s.calls[c]? = some call) (hquiet : e.isQuiet s.cache key)
    (h : call.EndsWithin n) :
    ∃ call', (s.step e).calls[c]? = some call' ∧ call'.command = call.command ∧
      call'.EndsWithin (n - (e.isTurn c).toNat) := by
  obtain ⟨call', hc', hstep⟩ := callStep_step (e := e) hc
  refine ⟨call', hc', command_of_callStep hstep, ?_⟩
  rcases h with hover | ⟨hint, handle, r, stage, hstage, hwork, hrank⟩
  · rw [eq_of_isOver hover hquiet hstep]
    exact .inl hover
  · by_cases hturn : e.isTurn c
    · obtain rfl : e = .perform c := by
        cases e with
        | perform d => rw [of_decide_eq_true hturn]
        | _ => cases hturn
      rcases call with ⟨command, hasTime, before, interruption⟩
      simp only at hstage hint
      subst hstage hint
      rw [hturn]
      cases (calls_perform_of_working hc).symm.trans hc'
      exact endsWithin_delivered hwork hrank
    · rw [Bool.eq_false_iff.2 hturn]
      cases hstep with
      | rest => exact .inr ⟨hint, handle, r, stage, hstage, hwork, hrank⟩
      | interrupt | refuse => cases hquiet
      | perform => exact absurd (decide_eq_true rfl) hturn
      | drop h | reject h | prepare h | take h | join h | wake h | turnBack h | leave h =>
        cases hstage.symm.trans h
      | breakOff _ h => cases hint.symm.trans h

namespace Fleet

variable {σ : Type}

/-- A call of one of the caches. -/
def call? (s : Fleet σ) (i c : Nat) : Option Call := s.caches[i]?.bind fun cache => cache.calls[c]?

/-- The configuration of one of the caches. -/
def config? (s : Fleet σ) (i : Nat) : Option Cache := s.caches[i]?.map LiveCache.cache

/-- Whether no call is under way. -/
def isIdle (s : Fleet σ) : Bool := s.caches.all fun cache => cache.calls.all Call.isOver

/-- Whether an event disturbs nobody who reads a key. -/
def isQuiet (s : Fleet σ) (key : Text) (i : Nat) (e : Event) : Bool :=
  (s.config? i).all (e.isQuiet · key)

theorem call?_eq_some_iff {s : Fleet σ} {i c : Nat} {call : Call} : s.call? i c = some call ↔
    ∃ cache, s.caches[i]? = some cache ∧ cache.calls[c]? = some call := Option.bind_eq_some_iff

theorem isOver_of_isIdle {s : Fleet σ} {i c : Nat} {call : Call} (h : s.isIdle)
    (hcall : s.call? i c = some call) : call.isOver := by
  obtain ⟨cache, hi, hc⟩ := call?_eq_some_iff.1 hcall
  have hcache := List.all_eq_true.1 h cache (List.mem_of_getElem? hi)
  exact List.all_eq_true.1 hcache call (List.mem_of_getElem? hc)

theorem isQuiet_of_cache {s : Fleet σ} {i : Nat} {e : Event} {key : Text} {cache : LiveCache σ}
    (hi : s.caches[i]? = some cache) (h : s.isQuiet key i e) : e.isQuiet cache.cache key := by
  simpa [isQuiet, config?, hi] using h

section
variable [Store σ] {s : Fleet σ} {i j c : Nat} {e : Event} {t : Target} {key : Text}
  {events : List (Nat × Event)}

/-- Whether an event moves the deadline of the target. -/
def Renews (s : Fleet σ) (t : Target) (i : Nat) (e : Event) : Prop := ∃ a ∈ s.access? i e, a.Renews t

theorem renews_iff_lend {cache : LiveCache σ} (hi : s.caches[i]? = some cache) :
    s.Renews t i e ↔ (s.lend cache).Renews t e := by
  rw [Renews, access?, hi]
  rfl

theorem config?_step : (s.step i e).config? j = s.config? j := by
  unfold config? Fleet.step
  cases hi : s.caches[i]? with
  | none => rfl
  | some cache =>
    simp only
    rw [List.getElem?_set]
    split
    · rename_i hij
      subst hij
      rw [if_pos (List.getElem?_eq_some_iff.1 hi).1, hi, Option.map_some, Option.map_some,
        LiveCache.cache_step]
      rfl
    · rfl

theorem config?_run : (s.run events).config? i = s.config? i := by
  induction events generalizing s with
  | nil => rfl
  | cons event later ih => exact ih.trans config?_step

theorem isQuiet_step {e' : Event} : (s.step i e).isQuiet key j e' = s.isQuiet key j e' := by
  rw [isQuiet, config?_step, isQuiet]

theorem now_step (hquiet : s.isQuiet key i e) : (s.step i e).now = s.now := by
  unfold Fleet.step
  cases hi : s.caches[i]? with
  | none => rfl
  | some cache =>
    have hquiet := isQuiet_of_cache hi hquiet
    exact LiveCache.now_step (s := s.lend cache) hquiet

variable [LawfulStore σ] {old : Nat → Nat → Call → Prop} {x y : Slot} {moved : Prop}

/-- While the target is read: the slot that it has, whose deadline has been moved or not, and what
each call is about, unless it is an old one and over. -/
structure Attended (old : Nat → Nat → Call → Prop) (t : Target) (x : Slot) (s : Fleet σ)
    (moved : Prop) (y : Slot) : Prop where
  sound : s.Sound
  target : t.Live s.now
  slot : slot? s.store s.now t.key = some y
  value : y.value = t.value
  before : ¬ moved → y = x
  after : moved → y.deadline = deadlineOf (some t.ttl) s.now
  calls : ∀ {i c : Nat} {cache : LiveCache σ} {call : Call}, s.caches[i]? = some cache →
    cache.calls[c]? = some call →
      old i c call ∧ call.isOver ∨ call.Attends t moved y.revision cache.cache cache.attempts

namespace Attended

variable {cache : LiveCache σ}

theorem lend (h : Attended old t x s moved y) (hi : s.caches[i]? = some cache) :
    (s.lend cache).Attended t moved y.revision :=
  fun hc => (h.calls hi hc).imp_left And.right

theorem isPatient (h : Attended old t x s moved y) (hi : s.caches[i]? = some cache) :
    (s.lend cache).IsPatient := by
  intro c call hc hwaiting
  rcases h.calls hi hc with ⟨-, hover⟩ | hattends
  · exact absurd hwaiting (Call.not_isWaiting_of_isOver hover)
  · exact hattends.uninterrupted

/-- The slot after an event of one of the caches. -/
theorem slot_step (h : Attended old t x s moved y) (hi : s.caches[i]? = some cache)
    (hquiet : e.isQuiet cache.cache t.key) :
    ∃ y', slot? ((s.lend cache).step e).store s.now t.key = some y' ∧
      t.Left s.now y y' (s.Renews t i e) := by
  rw [renews_iff_lend hi]
  exact LiveCache.slot_step (s := s.lend cache) h.sound.valid h.target h.slot h.value
    (fun hc hr => h.sound.informed hi hc hr) (h.lend hi) hquiet

/-- The calls of a cache after an event of its own. -/
theorem calls_step {y' : Slot} {c : Nat} {call' : Call} (h : Attended old t x s moved y)
    (hi : s.caches[i]? = some cache) (hquiet : e.isQuiet cache.cache t.key)
    (hy' : slot? ((s.lend cache).step e).store s.now t.key = some y')
    (hleft : y' = y ∨ moved ∨ s.Renews t i e)
    (hc' : ((s.lend cache).step e).calls[c]? = some call') :
    old i c call' ∧ call'.isOver ∨ call'.Attends t (moved ∨ s.Renews t i e) y'.revision
      ((s.lend cache).step e).cache ((s.lend cache).step e).attempts := by
  rw [renews_iff_lend hi] at hleft ⊢
  rcases LiveCache.exists_call_of_step hc' with ⟨call, hc, hstep⟩ | ⟨command, hasTime, rfl, -, rfl⟩
  · rcases h.calls hi hc with ⟨hold, hover⟩ | hattends
    · rw [LiveCache.eq_of_isOver (s := s.lend cache) hover hquiet hstep]
      exact .inl ⟨hold, hover⟩
    · exact .inr (LiveCache.attends_step h.sound.valid h.target h.slot h.value hy' hleft hquiet
        (h.isPatient hi) hc hattends hstep)
  · refine .inr ⟨rfl, fun hr => (by cases hr), fun hkey => ?_⟩
    simp only [Event.isQuiet, Bool.and_eq_true, Bool.or_eq_true, bne_iff_ne] at hquiet
    obtain ⟨htime, hread⟩ := hquiet
    refine ⟨hread.resolve_right fun hne => hne ?_, htime, trivial⟩
    rw [LiveCache.cache_step] at hkey
    exact congrArg Except.toOption hkey

/-- **What an event makes of it all.** -/
theorem step (h : Attended old t x s moved y) (hquiet : s.isQuiet t.key i e) :
    ∃ y', Attended old t x (s.step i e) (moved ∨ s.Renews t i e) y' := by
  cases hi : s.caches[i]? with
  | none =>
    have hsame : s.step i e = s := by rw [Fleet.step, hi]
    have hnone : ¬ s.Renews t i e := by
      rintro ⟨a, ha, -⟩
      rw [access?, hi] at ha
      cases ha
    rw [hsame, or_iff_left hnone]
    exact ⟨y, h⟩
  | some cache =>
    have hnow := now_step hquiet
    have hquiet := isQuiet_of_cache hi hquiet
    obtain ⟨y', hy', hleft⟩ := h.slot_step hi hquiet
    have hstore : (s.step i e).store = ((s.lend cache).step e).store := by rw [Fleet.step, hi]
    have hmoved : y' = y ∨ moved ∨ s.Renews t i e :=
      hleft.imp And.right fun hrenewed => .inr hrenewed.1
    refine ⟨y', ?_⟩
    exact {
      sound := h.sound.step (Event.isFair_of_isQuiet hquiet)
      target := hnow ▸ h.target
      slot := by rw [hstore, hnow, hy']
      value := by
        rcases hleft with ⟨-, rfl⟩ | ⟨-, hvalue, -⟩
        · exact h.value
        · exact hvalue
      before := fun hnot => by
        rcases hleft with ⟨-, rfl⟩ | ⟨hrenews, -⟩
        · exact h.before fun hmoved => hnot (.inl hmoved)
        · exact absurd (.inr hrenews) hnot
      after := fun hafter => by
        rw [hnow]
        rcases hleft with ⟨hnone, rfl⟩ | ⟨-, -, hdeadline⟩
        · exact h.after (hafter.resolve_right hnone)
        · exact hdeadline
      calls := fun {j c cache' call'} hj hc => by
        obtain ⟨other, hother, ⟨-, rfl⟩ | ⟨rfl, rfl⟩⟩ := exists_cache_of_step hj
        · refine (h.calls hother hc).imp_right fun hattends => hattends.mono .inl ?_
          exact hmoved.imp_left (congrArg _)
        · obtain rfl : cache = other := Option.some.inj (hi.symm.trans hother)
          exact h.calls_step hi hquiet hy' hmoved hc }

/-- What is asked of the store under the key of the target: a fetch, or a write of its value with a
new time to live. -/
theorem access (h : Attended old t x s moved y) (hquiet : s.isQuiet t.key i e) {a : Access σ}
    (ha : s.access? i e = some a) (hkey : a.call.key = t.key) : a.call = .get t.key ∨
      t.ttl.isPositive ∧ ∃ n, a.call = .update t.key t.value n (some t.ttl) := by
  obtain ⟨cache, hi, ha⟩ := Option.bind_eq_some_iff.1 ha
  have hquiet := isQuiet_of_cache hi hquiet
  obtain ⟨stage, hreading, rfl⟩ := LiveCache.access?_of_key
    (fun hc hr => h.sound.informed hi hc hr) (h.lend hi) hquiet ha hkey
  cases stage with
  | fetching | refetching => exact .inl rfl
  | renewing payload found ttl last =>
    obtain ⟨-, hvalue, rfl, hpos, -⟩ := hreading
    exact .inr ⟨hpos, found.revision, by rw [← hvalue]; rfl⟩
  | deleting | deletingAgain => exact hreading.elim

/-- **What a run makes of it all.** -/
theorem run (h : Attended old t x s moved y)
    (hquiet : ∀ event ∈ events, s.isQuiet t.key event.1 event.2) :
    (∃ y', Attended old t x (s.run events) (moved ∨ ∃ a ∈ s.accesses events, a.Renews t) y') ∧
      ∀ a ∈ s.accesses events, a.call.key = t.key → a.call = .get t.key ∨
        t.ttl.isPositive ∧ ∃ n, a.call = .update t.key t.value n (some t.ttl) := by
  induction events generalizing s moved y with
  | nil =>
    refine ⟨⟨y, ?_⟩, fun a ha => by cases ha⟩
    rwa [or_iff_left]
    rintro ⟨a, ha, -⟩
    cases ha
  | cons event later ih =>
    have hfirst := hquiet event List.mem_cons_self
    obtain ⟨y', hstep⟩ := h.step hfirst
    obtain ⟨⟨y'', hrun⟩, haccesses⟩ := ih hstep fun event' hmem => by
      rw [isQuiet_step]
      exact hquiet event' (List.mem_cons_of_mem _ hmem)
    have hmem : ∀ a, a ∈ s.accesses (event :: later) ↔
        a ∈ (s.step event.1 event.2).accesses later ∨ a ∈ s.access? event.1 event.2 := by
      intro a
      rw [accesses, List.mem_append, Option.mem_toList, Option.mem_def]
    constructor
    · refine ⟨y'', ?_⟩
      have hiff : ((moved ∨ s.Renews t event.1 event.2) ∨
          ∃ a ∈ (s.step event.1 event.2).accesses later, a.Renews t) ↔
            (moved ∨ ∃ a ∈ s.accesses (event :: later), a.Renews t) := by
        simp only [hmem, Renews, or_and_right, exists_or, or_assoc]
        rw [or_comm (a := ∃ a ∈ s.access? event.1 event.2, a.Renews t)]
      rwa [hiff] at hrun
    · intro a ha
      rcases (hmem a).1 ha with ha | ha
      · exact haccesses a ha
      · exact h.access hfirst ha

end Attended

/-! ## Calls to their end -/

omit [LawfulStore σ] in
theorem endsWithin_step {n : Nat} {call : Call} (hquiet : s.isQuiet key j e)
    (hcall : s.call? i c = some call) (h : call.EndsWithin n) :
    ∃ call', (s.step j e).call? i c = some call' ∧ call'.command = call.command ∧
      call'.EndsWithin (n - (decide (j = i ∧ e.isTurn c)).toNat) := by
  obtain ⟨cache, hi, hc⟩ := call?_eq_some_iff.1 hcall
  by_cases hij : j = i
  · subst hij
    have hcall? : (s.step j e).call? j c = ((s.lend cache).step e).calls[c]? := by
      simp only [call?, Fleet.step, hi, List.getElem?_set_self (List.getElem?_eq_some_iff.1 hi).1]
      rfl
    have hquiet := isQuiet_of_cache hi hquiet
    have hstep := LiveCache.endsWithin_step (s := s.lend cache) hc hquiet h
    simpa only [hcall?, true_and, Bool.decide_eq_true] using hstep
  · refine ⟨call, ?_, rfl, ?_⟩
    · rw [call?, Fleet.step]
      cases s.caches[j]? with
      | none => exact hcall
      | some other =>
        simp only [List.getElem?_set_ne hij]
        exact hcall
    · rwa [decide_eq_false fun h => hij h.1]

omit [LawfulStore σ] in
/-- A read that is given its turns is over at the end of a run. -/
theorem endsWithin_run {n : Nat} {call : Call}
    (hquiet : ∀ event ∈ events, s.isQuiet key event.1 event.2) (hcall : s.call? i c = some call)
    (h : call.EndsWithin n) :
    ∃ call', (s.run events).call? i c = some call' ∧ call'.command = call.command ∧
      call'.EndsWithin (n - events.countP fun event => event.1 = i ∧ event.2.isTurn c) := by
  induction events generalizing s n call with
  | nil => exact ⟨call, hcall, rfl, h⟩
  | cons event later ih =>
    obtain ⟨call', hcall', hcommand', h'⟩ :=
      endsWithin_step (hquiet event List.mem_cons_self) hcall h
    obtain ⟨call'', hcall'', hcommand'', h''⟩ := ih (fun event' hmem => by
      rw [isQuiet_step]
      exact hquiet event' (List.mem_cons_of_mem _ hmem)) hcall' h'
    refine ⟨call'', hcall'', hcommand''.trans hcommand', ?_⟩
    have hturn : (if decide (event.1 = i ∧ event.2.isTurn c) = true then 1 else 0) =
        (decide (event.1 = i ∧ event.2.isTurn c)).toNat := by
      cases decide (event.1 = i ∧ event.2.isTurn c) <;> rfl
    rwa [List.countP_cons, hturn, Nat.add_comm, ← Nat.sub_sub]

/-- A call about a key that was not yet there in an earlier state. -/
structure IsCaller (earlier s : Fleet σ) (key : Text) (i c : Nat) (call : Call) : Prop where
  found : s.call? i c = some call
  new : earlier.call? i c = none
  named : ∀ cache ∈ s.config? i, cache.storeKey call.command.key = .ok key

/-- What readers get and leave, who come to an entry in state `s₀`: its slot then, its payload, and
the time to live that a read starts. -/
structure Served (s₀ : Fleet σ) (events : List (Nat × Event)) (key : Text) (x : Slot)
    (payload : Bytes) (ttl : Duration) : Prop where
  /-- A call that is over has brought the payload. -/
  answered : ∀ {i c call}, s₀.IsCaller (s₀.run events) key i c call → call.isOver →
    call.stage = .over (call.command.answer (.ok (some payload)))
  /-- A call that has the store is over after five turns. -/
  ended : ∀ {before after i c call handle r}, events = before ++ after →
    s₀.IsCaller (s₀.run before) key i c call → call.stage = .working handle r →
    5 ≤ after.countP (fun event => event.1 = i ∧ event.2.isTurn c) →
    ∃ call', s₀.IsCaller (s₀.run events) key i c call' ∧ call'.isOver
  /-- Under the key there are only fetches, and, if there is time left, writes of the value over a
  revision. -/
  accesses : ∀ a ∈ s₀.accesses events, a.call.key = key → a.call = .get key ∨
    ttl.isPositive ∧ ∃ n, a.call = .update key x.value n (some ttl)
  unchanged : ∃ n d, slot? (s₀.run events).store s₀.now key = some ⟨x.value, n, d⟩
  /-- If there is time left and a call is over, such a write has been accepted, and the deadline is
  where each of them puts it. -/
  renewed : ttl.isPositive → (∃ i c call, s₀.IsCaller (s₀.run events) key i c call ∧ call.isOver) →
    (∃ a ∈ s₀.accesses events, a.isAccepted ∧ ∃ n, a.call = .update key x.value n (some ttl)) ∧
      ∃ n, slot? (s₀.run events).store s₀.now key =
        some ⟨x.value, n, some (s₀.now.utcUs + ttl.milliseconds * 1000)⟩
  /-- If there is none, all is as it was. -/
  kept : ttl.isPositive = false → slot? (s₀.run events).store s₀.now key = some x

omit [LawfulStore σ] in
theorem now_run (hquiet : ∀ event ∈ events, s.isQuiet key event.1 event.2) :
    (s.run events).now = s.now := by
  induction events generalizing s with
  | nil => rfl
  | cons event later ih =>
    refine (ih fun event' hmem => ?_).trans (now_step (hquiet event List.mem_cons_self))
    rw [isQuiet_step]
    exact hquiet event' (List.mem_cons_of_mem _ hmem)

/-- A call that was not there before is about the target, if it is about its key. -/
theorem Attended.reads {s₀ s : Fleet σ} {call : Call}
    (h : Attended (fun i c call => s₀.call? i c = some call) t x s moved y)
    (hcaller : s₀.IsCaller s t.key i c call) : call.interruption = none ∧ call.command.isRead ∧
      ∃ attempts, call.stage.IsReading t moved y.revision attempts call.command := by
  obtain ⟨cache, hi, hc⟩ := call?_eq_some_iff.1 hcaller.found
  rcases h.calls hi hc with ⟨hold, -⟩ | hattends
  · rw [hcaller.new] at hold
    cases hold
  · have hkey := hcaller.named cache.cache (by rw [config?, hi]; rfl)
    obtain ⟨hread, -, hstage⟩ := hattends.reads hkey
    exact ⟨hattends.uninterrupted, hread, _, hstage⟩

theorem Attended.over_of_caller {s₀ s : Fleet σ} {call : Call}
    (h : Attended (fun i c call => s₀.call? i c = some call) t x s moved y)
    (hcaller : s₀.IsCaller s t.key i c call) (hover : call.isOver) :
    call.stage = .over (call.command.answer (.ok (some t.payload))) ∧
      (t.ttl.isPositive → moved) := by
  obtain ⟨-, -, attempts, hreading⟩ := h.reads hcaller
  cases hstage : call.stage with
  | created | prepared | joined | working =>
    rw [Call.isOver, hstage] at hover
    cases hover
  | dropped =>
    rw [hstage] at hreading
    exact hreading.elim
  | _ =>
    rw [hstage] at hreading
    exact ⟨congrArg CallStage.over hreading.1, hreading.2⟩

/-- **Readers who are not disturbed are served.** -/
theorem Attended.served {s₀ : Fleet σ} {x : Slot}
    (h : Attended (fun i c call => s₀.call? i c = some call) t x s₀ False x)
    (hquiet : ∀ event ∈ events, s₀.isQuiet t.key event.1 event.2) (hvalue : x.value = t.value) :
    s₀.Served events t.key x t.payload t.ttl := by
  obtain ⟨⟨y, hend⟩, haccesses⟩ := h.run hquiet
  rw [false_or] at hend
  have hslot : slot? (s₀.run events).store s₀.now t.key = some ⟨t.value, y.revision, y.deadline⟩ := by
    rw [← hend.value, ← now_run hquiet]
    exact hend.slot
  rw [← hvalue] at haccesses hslot
  exact {
    answered := fun hcaller hover => (hend.over_of_caller hcaller hover).1
    ended := fun {before after i c call handle r} hsplit hcaller hstage hturns => by
      subst hsplit
      obtain ⟨⟨y', hthere⟩, -⟩ := h.run fun event hmem =>
        hquiet event (List.mem_append_left after hmem)
      obtain ⟨hint, -, attempts, hreading⟩ := hthere.reads hcaller
      rw [hstage] at hreading
      obtain ⟨-, stage, hwork, -⟩ := hreading
      have hrank := stage.rank_le
      have hlater : ∀ event ∈ after, (s₀.run before).isQuiet t.key event.1 event.2 := by
        intro event hmem
        rw [isQuiet, config?_run]
        exact hquiet event (List.mem_append_right before hmem)
      obtain ⟨call', hcall', hcommand, hends⟩ := endsWithin_run hlater hcaller.found
        (.inr ⟨hint, handle, r, stage, hstage, hwork, Nat.lt_succ_of_le hrank⟩)
      have hrun : s₀.run (before ++ after) = (s₀.run before).run after := List.foldl_append
      refine ⟨call', ⟨hrun ▸ hcall', hcaller.new, ?_⟩, ?_⟩
      · rw [config?_run, hcommand]
        have hnamed := hcaller.named
        rwa [config?_run] at hnamed
      · rw [Nat.sub_eq_zero_of_le hturns] at hends
        rcases hends with hover | ⟨-, _, _, _, -, -, hlt⟩
        · exact hover
        · exact absurd hlt (Nat.not_lt_zero _)
    accesses := haccesses
    unchanged := ⟨_, _, hslot⟩
    renewed := fun hpos ⟨i, c, call, hcaller, hover⟩ => by
      have hmoved := (hend.over_of_caller hcaller hover).2 hpos
      have hdeadline := hend.after hmoved
      obtain ⟨a, ha, haccepted, n, hcall⟩ := hmoved
      refine ⟨⟨a, ha, haccepted, n, by rw [hcall, hvalue]⟩, y.revision, ?_⟩
      rw [hslot, hdeadline, now_run hquiet]
      rfl
    kept := fun hpos => by
      have hnot : ¬ ∃ a ∈ s₀.accesses events, a.Renews t := by
        rintro ⟨a, ha, hrenews⟩
        rcases haccesses a ha hrenews.key_eq with hget | ⟨hpos', -⟩
        · obtain ⟨-, n, hcall⟩ := hrenews
          rw [hget] at hcall
          cases hcall
        · rw [hpos] at hpos'
          cases hpos'
      rw [← hend.before hnot, ← now_run hquiet]
      exact hend.slot }

end

/-- **Readers of one entry neither fail nor lose a renewal.** Let nobody be at the caches, and let a
key have a live entry with a window, and with time left for the deadline that a read sets. Then all
who read it at that instant, in whatever order their turns come, get its payload; the value stays;
and if the entry has any time left its deadline is moved to where that time ends, otherwise nothing
is written. -/
theorem readers_run {store : AnyStore} (hempty : store.IsEmpty) (now : Instant)
    (caches : List (Cache × Backend)) (before after : List (Nat × Event))
    (hfair : ∀ event ∈ before, event.2.isFair) {key : Text} {x : Slot} {entry : Entry}
    {ttl : Duration} :
    let s₀ := (start store now caches).run before
    s₀.isIdle → slot? s₀.store s₀.now key = some x → Entry.decode x.value = .ok entry →
    entry.renewal? s₀.now = some ttl →
    (∀ bound ∈ entry.absolute, s₀.now.le? bound = .ok true) →
    (ttl.isPositive → s₀.now.reading + ttl.milliseconds * 1000 < calendarUs) →
    (∀ event ∈ after, s₀.isQuiet key event.1 event.2) →
    s₀.Served after key x entry.payload ttl := by
  intro s₀ hidle hslot hdecode httl hbound hroom hquiet
  have hsound : s₀.Sound := (sound_start hempty.valid fun _ => hempty.slot?_eq_none).run hfair
  have hlegal : StoreKey.IsLegal key := by
    obtain ⟨⟨since, hput⟩, -⟩ := (hsound.traced key).live hslot
    exact (hsound.traced key).legal hput
  have hattended : Attended (fun i c call => s₀.call? i c = some call)
      ⟨key, x.value, entry.payload, ttl⟩ x s₀ False x := {
    sound := hsound
    target := Target.live_of_entry hlegal hdecode httl hbound hroom
    slot := hslot
    value := rfl
    before := fun _ => rfl
    after := False.elim
    calls := fun hi hc => by
      have hcall := call?_eq_some_iff.2 ⟨_, hi, hc⟩
      exact .inl ⟨hcall, isOver_of_isIdle hidle hcall⟩ }
  exact hattended.served hquiet rfl

/-- A set of a value with a window. -/
def slidingSet (window : Duration) : List (Nat × Event) :=
  [(0, .start (.set "k" [1] { sliding := some window }) true), (0, .begin 0), (0, .ask 0),
    (0, .beginAttempt 0), (0, .endAttempt 0 (.opened 0)), (0, .wake 0), (0, .perform 0)]

/-- What the set writes. -/
def slidingValue (us : Nat) : Bytes :=
  (("\x7b\"sldexp\":" : Text) ++ Text.ofNat us ++ ("\x7d" : Text)).flatMap CodePoint.octets
    ++ [Entry.lineFeed, 1]

/-- Two readers, one of them through another cache, who fetch the same revision. The second loses
and tries again. -/
def contest : List (Nat × Event) :=
  [(0, .start (.get "k") true), (0, .begin 1), (0, .ask 1), (1, .start (.refresh "k") true),
    (1, .begin 0), (1, .ask 0), (1, .beginAttempt 0), (1, .endAttempt 0 (.opened 0)), (1, .wake 0),
    (0, .perform 1), (1, .perform 0), (0, .perform 1), (1, .perform 0), (1, .perform 0),
    (1, .perform 0)]

theorem readers_run_contest :
    let s₀ := (start (AnyStore.memory {}) default
      [({}, ⟨"cache", false⟩), ({}, ⟨"cache", false⟩)]).run (slidingSet ⟨2000000, by decide⟩)
    s₀.Served contest "k" ⟨slidingValue 2000000, 1, some 2000000⟩ [1] ⟨2000000, by decide⟩ ∧
      (s₀.run contest).isIdle := by
  intro s₀
  have hslot : slot? s₀.store s₀.now "k" = some ⟨slidingValue 2000000, 1, some 2000000⟩ := by
    decide +kernel
  have hdecode : Entry.decode (slidingValue 2000000) =
      .ok ⟨[1], none, some ⟨2000000, by decide⟩⟩ := Chain.eq_ok_of_toOption (by decide +kernel)
  have hserved := readers_run .memory default [({}, ⟨"cache", false⟩), ({}, ⟨"cache", false⟩)]
    (slidingSet ⟨2000000, by decide⟩) contest (by decide) (by decide +kernel) hslot hdecode rfl
    (by rintro _ ⟨⟩) (by decide +kernel) (by decide +kernel)
  exact ⟨hserved, by decide +kernel⟩

/-- Two readers at a time. -/
def lateGets : List (Nat × Event) :=
  [(0, .start (.get "k") true), (0, .begin 1), (0, .ask 1), (0, .start (.get "k") true),
    (0, .begin 2), (0, .ask 2), (0, .perform 1), (0, .perform 2), (0, .perform 1), (0, .perform 2)]

/-- It is not enough that the window itself ends within the calendar: half a millisecond before the
end of the year 9999 both readers of an entry with a window of a microsecond fail, because stores
count whole milliseconds. -/
theorem readers_fail_at_end :
    let s₀ := (start (AnyStore.memory {}) ⟨315537897599998700, some .utc, by decide⟩
      [({}, ⟨"cache", false⟩)]).run (slidingSet ⟨1, by decide⟩ ++ [(0, .advance ⟨800, by decide⟩)])
    let entry : Entry := ⟨[1], none, some ⟨1, by decide⟩⟩
    s₀.isIdle ∧
      slot? s₀.store s₀.now "k" = some ⟨slidingValue 1, 1, some 315537897599999700⟩ ∧
      Entry.decode (slidingValue 1) = .ok entry ∧
      entry.renewal? s₀.now = some ⟨1, by decide⟩ ∧
      (∃ i, s₀.now.add ⟨1, by decide⟩ = .ok i) ∧
      (∀ event ∈ lateGets, s₀.isQuiet "k" event.1 event.2) ∧
      ∀ c ∈ [1, 2], ∃ call fault, s₀.IsCaller (s₀.run lateGets) "k" 0 c call ∧
        call.stage = .over (.error fault) ∧ fault.message = some "date value out of range" := by
  intro s₀ entry
  have hconfig : (s₀.run lateGets).config? 0 = some {} := by
    rw [config?_run, config?_run]
    rfl
  have hend : [1, 2].all (fun c => (s₀.call? 0 c).isNone &&
      ((s₀.run lateGets).call? 0 c).any fun call =>
        call.fault?.any (·.message == some ("date value out of range" : Text)) &&
          (({} : Cache).storeKey call.command.key).toOption == some ("k" : Text)) = true := by
    decide +kernel
  refine ⟨by decide +kernel, by decide +kernel, Chain.eq_ok_of_toOption (by decide +kernel), rfl,
    ?_, by decide +kernel, fun c hc => ?_⟩
  · have hadd : (s₀.now.add ⟨1, by decide⟩).toOption.isSome := by decide +kernel
    obtain ⟨i, hi⟩ := Option.isSome_iff_exists.1 hadd
    exact ⟨i, Chain.eq_ok_of_toOption hi⟩
  · have hcheck := List.all_eq_true.1 hend c hc
    simp only [Bool.and_eq_true, Option.isNone_iff_eq_none, Option.any_eq_true, beq_iff_eq] at hcheck
    obtain ⟨hnew, call, hcall, ⟨fault, hfault, hmessage⟩, hkey⟩ := hcheck
    refine ⟨call, fault, ⟨hcall, hnew, ?_⟩, Call.stage_of_fault? hfault, hmessage⟩
    rw [hconfig]
    rintro cache ⟨⟩
    exact Chain.eq_ok_of_toOption hkey

end Fleet

end SlidingCache
