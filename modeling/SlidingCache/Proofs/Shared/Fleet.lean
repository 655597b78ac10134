import SlidingCache.Proofs.Live.Calls
import SlidingCache.Proofs.Shared.Requests
import SlidingCache.Proofs.Store.Any

/-!
# Caches that share a store

A `Fleet` is any number of caches, each with its callers, on one store and one clock. An event of
any of them may come at any time, and `Fleet.log` lists the accesses to the store, latest first.

At every moment of every run the store lives up to the writes that reached it
(`Fleet.kept_run`). The invariant is `Fleet.Sound`: whatever is under way is informed, so every
access is harmless.
-/

namespace SlidingCache

open LawfulStore

/-- Whether an event is the cache's own, or a call of someone else that names no revision. Time does
not go back. -/
def Event.isFair : Event → Bool
  | .rival call => call.expected?.isNone
  | .advance time => 0 ≤ time.us
  | _ => true

/-- The request that a call has under way. -/
def Call.request? (c : Call) : Option Request := match c.stage with
  | .prepared request | .joined _ request | .working _ request => some request
  | .created | .over _ | .dropped => none

namespace LiveCache

variable {σ : Type} {s : LiveCache σ} {e : Event} {a : Access σ} {c : Nat}

/-- The access that an event makes to the store. -/
def access? (s : LiveCache σ) : Event → Option (Access σ)
  | .perform c => match s.calls[c]? with
    | some ⟨_, _, .working _ request, none⟩ => some ⟨s.store, s.now, request.call⟩
    | _ => none
  | .rival call => some ⟨s.store, s.now, call⟩
  | _ => none

/-- What the store and the clock are, which most events leave alone. -/
def surroundings (s : LiveCache σ) : σ × Instant := (s.store, s.now)

theorem surroundings_deliver (s : LiveCache σ) (c : Nat) (command : Command) (handle : Handle)
    (request : Request) (reply : Except StoreFault request.call.Reply) :
    (s.deliver c command handle request reply).surroundings = s.surroundings := by
  unfold deliver
  cases h : (request.work.resume request.key s.now reply).next <;> simp only [h] <;> rfl

theorem step_of_access? [Store σ] (h : s.access? e = some a) :
    a = ⟨s.store, s.now, a.call⟩ ∧
      (s.step e).store = (Store.perform s.now a.call s.store).2 ∧ (s.step e).now = s.now := by
  cases e with
  | perform c =>
    simp only [access?] at h
    split at h
    · rename_i command hasTime handle request hc
      cases h
      have hd := surroundings_deliver
        { s with store := (Store.perform s.now request.call s.store).2 } c command handle request
        (Store.perform s.now request.call s.store).1
      refine ⟨rfl, ?_⟩
      simp only [step, perform, hc]
      exact ⟨congrArg Prod.fst hd, congrArg Prod.snd hd⟩
    · cases h
  | rival call => cases h; exact ⟨rfl, rfl, rfl⟩
  | _ => cases h

theorem surroundings_step [Store σ] (h : s.access? e = none)
    (htime : ∀ time, e ≠ .advance time) : (s.step e).surroundings = s.surroundings := by
  cases e with
  | advance time => exact absurd rfl (htime time)
  | rival call => cases h
  | perform c =>
    simp only [step, perform]
    split
    · rfl
    · rename_i hc
      simp [access?, hc] at h
    · rfl
  | refuse c fault =>
    simp only [step, refuse]
    split
    · rfl
    · exact surroundings_deliver _ _ _ _ _ _
    · rfl
  | ask c =>
    simp only [step, ask, attemptFor]
    repeat' split
    all_goals rfl
  | wake c =>
    simp only [step, wake, leave]
    repeat' split
    all_goals rfl
  | close =>
    simp only [step, close]
    split <;> rfl
  | _ =>
    simp only [step, start, begin, interrupt, beginAttempt, endAttempt, release]
    repeat' split
    all_goals rfl

/-- Only an access changes the store. -/
theorem store_step_of_none [Store σ] (h : s.access? e = none) : (s.step e).store = s.store := by
  by_cases htime : ∃ time, e = .advance time
  · obtain ⟨time, rfl⟩ := htime
    simp only [step]
    split <;> rfl
  · exact congrArg Prod.fst (surroundings_step h fun time ht => htime ⟨time, ht⟩)

/-- What is under way when the store has answered. -/
theorem request?_delivered {now : Instant} {call : Call} {command : Command} {handle : Handle}
    {r r' : Request} {reply : Except StoreFault r.call.Reply}
    (h : Call.request? { call with stage := delivered now command handle r reply } = some r') :
    ∃ work, (r.work.resume r.key now reply).next = .inl work ∧ r' = { r with work } := by
  unfold delivered at h
  cases hturn : (r.work.resume r.key now reply).next with
  | inl work =>
    simp only [hturn] at h
    exact ⟨work, rfl, (Option.some.inj h).symm⟩
  | inr result =>
    simp only [hturn] at h
    cases h

/-- A request was under way before, or is new, or goes on when the store has answered. -/
theorem request?_cases [Store σ] {call call' : Call} {r' : Request}
    (hstep : CallStep s c call e call') (h : call'.request? = some r') :
    call.request? = some r' ∨ call.command.request s.cache s.now = .ok r' ∨
      ∃ (r : Request) (reply : Except StoreFault r.call.Reply) (work : Work),
        call.request? = some r ∧ (r.work.resume r.key s.now reply).next = .inl work ∧
          r' = { r with work } := by
  cases hstep with
  | rest | interrupt => exact .inl h
  | drop | reject | turnBack | leave | breakOff => cases h
  | prepare _ _ hrequest =>
    split at h
    · cases h
      exact .inr (.inl hrequest)
    · cases h
  | take hstage | join hstage =>
    cases h
    exact .inl (by rw [Call.request?, hstage])
  | @wake a r attempt outcome hstage =>
    cases outcome with
    | opened =>
      cases h
      exact .inl (by rw [Call.request?, hstage])
    | failed | cancelled => cases h
  | perform hstage | refuse hstage =>
    obtain ⟨work, hnext, rfl⟩ := request?_delivered h
    exact .inr (.inr ⟨_, _, work, by rw [Call.request?, hstage], hnext, rfl⟩)

/-- All requests under way are such as their commands ask for. -/
def Requests (s : LiveCache σ) (P : Command → Request → Prop) : Prop :=
  ∀ (c : Nat) (call : Call) (r : Request), s.calls[c]? = some call → call.request? = some r →
    P call.command r

/-- What holds of a request when it is made, and with every turn of its work, holds of all requests
under way. -/
theorem Requests.step [Store σ] {P : Command → Request → Prop} (h : s.Requests P)
    (hmade : ∀ {command r}, command.request s.cache s.now = .ok r → P command r)
    (hturn : ∀ {command} {r : Request} {reply : Except StoreFault r.call.Reply} {work},
      P command r → (r.work.resume r.key s.now reply).next = .inl work →
        P command { r with work }) :
    (s.step e).Requests P := by
  intro c call' r' hc' hr'
  rcases exists_call_of_step hc' with ⟨call, hc, hstep⟩ | ⟨command, hasTime, rfl, rfl, rfl⟩
  · rw [command_of_callStep hstep]
    rcases request?_cases hstep hr' with hr | hr | ⟨r, reply, work, hr, hnext, rfl⟩
    · exact h c call r' hc hr
    · exact hmade hr
    · exact hturn (h c call r hc hr) hnext
  · cases hr'

/-- An event makes an access, or at most lets time pass. -/
theorem surroundings_cases [Store σ] (he : e.isFair) :
    (∃ call, s.access? e = some ⟨s.store, s.now, call⟩ ∧
      (s.step e).store = (Store.perform s.now call s.store).2 ∧ (s.step e).now = s.now) ∨
    s.access? e = none ∧ (s.step e).store = s.store ∧ s.now.utcUs ≤ (s.step e).now.utcUs := by
  cases ha : s.access? e with
  | some a =>
    obtain ⟨heq, hstep⟩ := step_of_access? ha
    exact .inl ⟨a.call, congrArg some heq, hstep⟩
  | none =>
    refine .inr ⟨rfl, ?_⟩
    by_cases htime : ∃ time, e = .advance time
    · obtain ⟨time, rfl⟩ := htime
      have hpos : 0 ≤ time.us := by simpa [Event.isFair] using he
      simp only [step]
      cases hadd : s.now.add time with
      | error fault => exact ⟨rfl, Int.le_refl _⟩
      | ok now =>
        have := Instant.utcUs_add hadd
        exact ⟨rfl, by simp only; omega⟩
    · have hs := surroundings_step ha fun time ht => htime ⟨time, ht⟩
      exact ⟨congrArg Prod.fst hs, Int.le_of_eq (congrArg (·.2.utcUs) hs).symm⟩

theorem isAware_now_step [Store σ] : (s.step e).now.isAware = s.now.isAware := by
  cases ha : s.access? e with
  | some a => rw [(step_of_access? ha).2.2]
  | none =>
    by_cases htime : ∃ time, e = .advance time
    · obtain ⟨time, rfl⟩ := htime
      simp only [step]
      cases hadd : s.now.add time with
      | error fault => rfl
      | ok now => exact Instant.isAware_add hadd
    · have hs := surroundings_step ha fun time ht => htime ⟨time, ht⟩
      rw [show (s.step e).now = s.now from congrArg Prod.snd hs]

theorem cache_deliver {command : Command} {handle : Handle} {request : Request}
    {reply : Except StoreFault request.call.Reply} :
    (s.deliver c command handle request reply).cache = s.cache := by
  unfold deliver
  cases h : (request.work.resume request.key s.now reply).next <;> simp only [h] <;> rfl

theorem cache_step [Store σ] : (s.step e).cache = s.cache := by
  cases e with
  | perform c =>
    simp only [step, perform]
    split
    · rfl
    · exact cache_deliver
    · rfl
  | refuse c fault =>
    simp only [step, refuse]
    split
    · rfl
    · exact cache_deliver
    · rfl
  | close =>
    simp only [step, close]
    split <;> rfl
  | _ =>
    simp only [step, start, begin, ask, attemptFor, wake, leave, interrupt, beginAttempt,
      endAttempt, release]
    repeat' split
    all_goals rfl

theorem cache_run [Store σ] (events : List Event) : (s.run events).cache = s.cache := by
  induction events generalizing s with
  | nil => rfl
  | cons e events ih => exact ih.trans cache_step

section
variable [Store σ] [LawfulStore σ]

theorem valid_step (hs : Valid s.store) (e : Event) : Valid (s.step e).store := by
  cases ha : s.access? e with
  | some a =>
    rw [(step_of_access? ha).2.1]
    exact valid_perform hs
  | none =>
    rw [store_step_of_none ha]
    exact hs

theorem valid_run (hs : Valid s.store) (events : List Event) : Valid (s.run events).store := by
  induction events generalizing s with
  | nil => exact hs
  | cons e events ih => exact ih (valid_step hs e)

/-! ## Requests under an event -/

/-- What is under way is informed. -/
def Informed (s : LiveCache σ) : Prop :=
  ∀ {c : Nat} {call : Call} {r : Request}, s.calls[c]? = some call → call.request? = some r →
    r.Informed s.store s.now

/-- A request stays informed: a call is performed, or time passes. -/
theorem informed_step {r : Request} (hs : Valid s.store) (he : e.isFair)
    (h : r.Informed s.store s.now) : r.Informed (s.step e).store (s.step e).now := by
  rcases surroundings_cases (s := s) he with ⟨call, -, hstore, hnow⟩ | ⟨-, hstore, hle⟩
  · rw [hstore, hnow]
    exact h.perform hs
  · rw [hstore]
    exact h.wait hs hle

/-- Who gets on with its work relies only on what the store has just answered. -/
theorem informed_delivered {call : Call} {handle : Handle} {r r' : Request} {t : σ}
    {reply : Except StoreFault r.call.Reply}
    (hnext : ∀ {work}, (r.work.resume r.key s.now reply).next = .inl work →
      Request.Informed t s.now { r with work })
    (h : Call.request? { call with stage := delivered s.now call.command handle r reply } =
      some r') : r'.Informed t s.now := by
  obtain ⟨work, hturn, rfl⟩ := request?_delivered h
  exact hnext hturn

theorem Informed.step (h : s.Informed) (hs : Valid s.store) (he : e.isFair) :
    (s.step e).Informed := by
  intro c call' r' hc' hr'
  have hkeep : ∀ {r : Request}, r.Informed s.store s.now →
      r.Informed (s.step e).store (s.step e).now := fun hr => informed_step hs he hr
  rcases exists_call_of_step hc' with ⟨call, hc, hstep⟩ | ⟨command, hasTime, rfl, rfl, rfl⟩
  · cases hstep with
    | rest => exact hkeep (h hc hr')
    | interrupt => exact hkeep (h hc hr')
    | drop | reject | turnBack | leave | breakOff => cases hr'
    | prepare _ _ hrequest =>
      split at hr'
      · cases hr'
        exact Command.informed_of_request hrequest
      · cases hr'
    | take hstage => exact hkeep (h hc (by simpa [Call.request?, hstage] using hr'))
    | join hstage => exact hkeep (h hc (by simpa [Call.request?, hstage] using hr'))
    | @wake a request attempt outcome hstage =>
      cases outcome with
      | opened => exact hkeep (h hc (by simpa [Call.request?, hstage, received] using hr'))
      | failed fault => cases hr'
      | cancelled => cases hr'
    | @perform handle request hstage hint =>
      have ha : s.access? (.perform c) = some ⟨s.store, s.now, request.call⟩ := by
        rcases call with ⟨command, hasTime, stage, interruption⟩
        simp only at hstage hint
        simp [access?, hc, hstage, hint]
      obtain ⟨-, hstore, hnow⟩ := step_of_access? ha
      rw [hstore, hnow]
      exact informed_delivered (fun hnext => Request.informed_of_performed hs hnext) hr'
    | @refuse handle request fault hstage hint =>
      have hrest := surroundings_step (s := s) (e := .refuse c fault) rfl (by simp)
      rw [show (s.step _).store = s.store from congrArg Prod.fst hrest,
        show (s.step _).now = s.now from congrArg Prod.snd hrest]
      exact informed_delivered (fun hnext => Request.informed_of_error hnext) hr'
  · cases hr'

end

end LiveCache

/-! ## The fleet -/

structure Fleet (σ : Type) where
  store : σ
  now : Instant
  caches : List (LiveCache σ)
  /-- The accesses to the store, latest first. -/
  log : List (Access σ) := []

namespace Fleet

variable {σ : Type}

/-- A cache at its turn, with the store and the clock that all of them share. -/
def lend (s : Fleet σ) (cache : LiveCache σ) : LiveCache σ :=
  { cache with store := s.store, now := s.now }

variable [Store σ]

/-- An event of one of the caches. -/
def step (s : Fleet σ) (i : Nat) (e : Event) : Fleet σ :=
  match s.caches[i]? with
  | none => s
  | some cache =>
    let after := (s.lend cache).step e
    { store := after.store
      now := after.now
      caches := s.caches.set i after
      log := ((s.lend cache).access? e).toList ++ s.log }

def run (s : Fleet σ) (events : List (Nat × Event)) : Fleet σ :=
  events.foldl (fun s e => s.step e.1 e.2) s

/-- Caches that nobody has used, on a store. -/
def start (store : σ) (now : Instant) (caches : List (Cache × Backend)) : Fleet σ where
  store
  now
  caches := caches.map fun (cache, backend) => { cache, backend, store, now }

/-- The access that an event makes to the store. -/
def access? (s : Fleet σ) (i : Nat) (e : Event) : Option (Access σ) :=
  s.caches[i]?.bind fun cache => (s.lend cache).access? e

/-- The accesses that a run makes to the store, latest first. -/
def accesses (s : Fleet σ) : List (Nat × Event) → List (Access σ)
  | [] => []
  | e :: later => (s.step e.1 e.2).accesses later ++ (s.access? e.1 e.2).toList

section
variable {s : Fleet σ} {i : Nat} {e : Event} {events : List (Nat × Event)}

theorem log_step : (s.step i e).log = (s.access? i e).toList ++ s.log := by
  unfold Fleet.step access?
  cases s.caches[i]? <;> rfl

/-- An access is made with the store and the clock of all, and the store is what it leaves. -/
theorem step_of_access? {a : Access σ} (h : s.access? i e = some a) :
    a = ⟨s.store, s.now, a.call⟩ ∧ (s.step i e).store = (Store.perform s.now a.call s.store).2 := by
  unfold Fleet.step
  obtain ⟨cache, hi, ha⟩ := Option.bind_eq_some_iff.1 h
  obtain ⟨heq, hstore, -⟩ := LiveCache.step_of_access? ha
  rw [hi]
  exact ⟨heq, hstore⟩

theorem store_step_of_none (h : s.access? i e = none) : (s.step i e).store = s.store := by
  unfold Fleet.step
  cases hi : s.caches[i]? with
  | none => rfl
  | some cache =>
    rw [access?, hi] at h
    exact LiveCache.store_step_of_none h

/-- A cache after an event is one before, or it has had the event. -/
theorem exists_cache_of_step {j : Nat} {cache' : LiveCache σ}
    (h : (s.step i e).caches[j]? = some cache') :
    ∃ cache, s.caches[j]? = some cache ∧
      (i ≠ j ∧ cache' = cache ∨ i = j ∧ cache' = (s.lend cache).step e) := by
  unfold Fleet.step at h
  cases hi : s.caches[i]? with
  | none =>
    simp only [hi] at h
    refine ⟨cache', h, .inl ⟨fun hij => ?_, rfl⟩⟩
    rw [← hij, hi] at h
    cases h
  | some cache =>
    simp only [hi] at h
    rw [List.getElem?_set] at h
    split at h
    · rename_i hij
      split at h
      · cases h
        exact ⟨cache, hij ▸ hi, .inr ⟨hij, rfl⟩⟩
      · cases h
    · rename_i hij
      exact ⟨cache', h, .inl ⟨hij, rfl⟩⟩

theorem isAware_now_step : (s.step i e).now.isAware = s.now.isAware := by
  unfold Fleet.step
  cases s.caches[i]? with
  | none => rfl
  | some cache => exact LiveCache.isAware_now_step (s := s.lend cache)

theorem isAware_now_run : (s.run events).now.isAware = s.now.isAware := by
  induction events generalizing s with
  | nil => rfl
  | cons e later ih => exact ih.trans isAware_now_step

theorem le_now_step (he : e.isFair) : s.now.utcUs ≤ (s.step i e).now.utcUs := by
  unfold Fleet.step
  cases s.caches[i]? with
  | none => exact Int.le_refl _
  | some cache =>
    rcases (s.lend cache).surroundings_cases he with ⟨call, -, -, hnow⟩ | ⟨-, -, hle⟩
    · exact Int.le_of_eq (congrArg Instant.utcUs hnow).symm
    · exact hle

variable [LawfulStore σ]

theorem valid_step (hs : Valid s.store) (i : Nat) (e : Event) : Valid (s.step i e).store := by
  cases ha : s.access? i e with
  | some a =>
    rw [(step_of_access? ha).2]
    exact valid_perform hs
  | none =>
    rw [store_step_of_none ha]
    exact hs

theorem valid_run (hs : Valid s.store) : Valid (s.run events).store := by
  induction events generalizing s with
  | nil => exact hs
  | cons e later ih => exact ih (valid_step hs e.1 e.2)

/-- An event leaves what is under a key unless its access writes or removes it. -/
theorem slot?_step_of_get {key : Text} (hs : Valid s.store)
    (h : ∀ a ∈ s.access? i e, a.call.key = key → a.call = .get key) :
    slot? (s.step i e).store s.now key = slot? s.store s.now key := by
  cases ha : s.access? i e with
  | none => rw [store_step_of_none ha]
  | some a =>
    rw [(step_of_access? ha).2]
    by_cases hkey : a.call.key = key
    · rw [h a ha hkey, slot?_perform_get hs]
    · exact slot?_perform_of_ne hs (Ne.symm hkey)

structure Sound (s : Fleet σ) : Prop where
  valid : Valid s.store
  traced : ∀ key, Traced key s.store s.now s.log
  informed : ∀ {i : Nat} {cache : LiveCache σ}, s.caches[i]? = some cache → (s.lend cache).Informed

theorem Sound.harmless {cache : LiveCache σ} {a : Access σ} (h : s.Sound)
    (hi : s.caches[i]? = some cache) (he : e.isFair)
    (ha : (s.lend cache).access? e = some a) : Harmless s.store s.now a.call := by
  cases e with
  | perform c =>
    simp only [LiveCache.access?] at ha
    split at ha
    · rename_i hc
      cases ha
      exact (h.informed hi hc rfl).harmless
    · cases ha
  | rival call =>
    cases ha
    cases call with
    | delete key expected =>
      cases expected with
      | none => exact trivial
      | some n => cases he
    | update => cases he
    | put | get => exact trivial
  | _ => cases ha

theorem Sound.step (h : s.Sound) (he : e.isFair) : (s.step i e).Sound := by
  unfold Fleet.step
  cases hi : s.caches[i]? with
  | none => exact h
  | some cache =>
    have hlent := (s.lend cache).surroundings_cases (e := e) he
    have hown : ((s.lend cache).step e).Informed :=
      LiveCache.Informed.step (fun hc hr => h.informed hi hc hr) h.valid he
    have hother : ∀ {r : Request}, r.Informed s.store s.now →
        r.Informed ((s.lend cache).step e).store ((s.lend cache).step e).now :=
      fun hr => LiveCache.informed_step (s := s.lend cache) h.valid he hr
    have hvalid : Valid ((s.lend cache).step e).store := by
      rcases hlent with ⟨call, -, hstore, -⟩ | ⟨-, hstore, -⟩
      · exact hstore ▸ valid_perform h.valid
      · exact hstore ▸ h.valid
    refine ⟨hvalid, fun key => ?_, fun {j other} hj => ?_⟩
    · rcases hlent with ⟨call, ha, hstore, hnow⟩ | ⟨ha, hstore, hle⟩
      · have hharmless : Harmless s.store s.now call := h.harmless hi he ha
        simp only [ha, hstore, hnow]
        exact (h.traced key).access h.valid hharmless
      · simp only [ha, hstore]
        exact (h.traced key).wait h.valid hle
    · rw [List.getElem?_set] at hj
      split at hj
      · rename_i hij
        split at hj
        · cases hj; exact hown
        · cases hj
      · exact fun hc hr => hother (h.informed hj hc hr)

theorem Sound.run (h : s.Sound) (hfair : ∀ e ∈ events, e.2.isFair) : (s.run events).Sound := by
  induction events generalizing s with
  | nil => exact h
  | cons e later ih =>
    exact ih (h.step (hfair e List.mem_cons_self)) fun e he => hfair e (List.mem_cons_of_mem _ he)

theorem sound_start {store : σ} {now : Instant} {caches : List (Cache × Backend)}
    (hvalid : Valid store) (hempty : ∀ key, slot? store now key = none) :
    (start store now caches).Sound where
  valid := hvalid
  traced key := traced_nil (hempty key)
  informed {i cache} hi := by
    obtain ⟨p, -, rfl⟩ := Option.map_eq_some_iff.1 (List.getElem?_map.symm.trans hi)
    intro c call r hc
    cases hc

end

end Fleet

namespace AnyStore

/-- A store of either kind that nobody has written to. -/
inductive IsEmpty : AnyStore → Prop
  | memory : IsEmpty (.memory {})
  | redis {keepsAtDeadline : Bool} {space bucket : Text} :
    IsEmpty (.redis ⟨{ keepsAtDeadline }, space, bucket⟩)

theorem IsEmpty.valid {s : AnyStore} (h : s.IsEmpty) : Valid s := by
  cases h with
  | memory => exact MemoryStore.valid_default
  | redis => exact RedisStore.valid_empty

theorem IsEmpty.slot?_eq_none {s : AnyStore} {now : Instant} {key : Text} (h : s.IsEmpty) :
    slot? s now key = none := by
  cases h with
  | memory => rfl
  | redis => rfl

end AnyStore

/-- **Renewals and lazy deletions neither lose nor alter a write.** Whatever callers of whatever
caches do in whatever order on an empty store that they share, under each key there is the value
that was put last, unless it was deleted, its deadline has passed or its own absolute bound had. -/
theorem Fleet.kept_run {store : AnyStore} (hempty : store.IsEmpty) (now : Instant)
    (caches : List (Cache × Backend)) (events : List (Nat × Event))
    (hfair : ∀ e ∈ events, e.2.isFair) (key : Text) :
    let s := (start store now caches).run events
    Kept key s.store s.now s.log :=
  let h := (sound_start hempty.valid fun _ => hempty.slot?_eq_none).run hfair
  (h.traced key).kept h.valid

/-- A set through one cache, and a read through another that would renew it when a write comes
between. -/
theorem Fleet.kept_run_overtaken : ∃ s : Fleet AnyStore,
    s = (start (.memory {}) default [({}, ⟨"cache", false⟩), ({}, ⟨"cache", false⟩)]).run
      [(0, .start (.set "k" [1] { sliding := some ⟨1000000, by decide⟩ }) true), (0, .begin 0),
        (0, .ask 0), (0, .beginAttempt 0), (0, .endAttempt 0 (.opened 0)), (0, .wake 0),
        (0, .perform 0), (1, .start (.get "k") true), (1, .begin 0), (1, .ask 0),
        (1, .beginAttempt 0), (1, .endAttempt 0 (.opened 0)), (1, .wake 0), (1, .perform 0),
        (0, .rival (.put "k" [2] none)), (1, .perform 0)] ∧
      Kept "k" s.store s.now s.log :=
  ⟨_, rfl, kept_run .memory _ _ _ (by decide) _⟩

end SlidingCache
