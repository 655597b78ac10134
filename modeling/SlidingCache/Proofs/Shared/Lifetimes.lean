import SlidingCache.Proofs.Shared.Asked
import SlidingCache.Proofs.Shared.History
import SlidingCache.Proofs.Store.Enduring

/-!
# What lasts and what ends

While only caches use a store, none of their calls fails one of its checks (`Access.Passes`), and
an entry has a deadline in the store if and only if its header names an end. So what was written
with an end does not outlast it, and what was written without one is there until it is written over
or removed (`Fleet.lifetimes_run`). The clock may be set forward or back between any two calls.

The invariant is about what calls have left, dead or live (`Fleet.Marked`): what a cache writes is
apt, and nothing else adds to the store.
-/

namespace SlidingCache

open LawfulStore ExactStore EnduringStore

variable {σ : Type} [Store σ]

/-- A call that passes the checks of the store. -/
structure Access.Passes (a : Access σ) : Prop where
  key : StoreKey.check a.call.key = .ok ()
  ttl : ∀ ttl ∈ a.call.ttl?,
    ttlMilliseconds (some ttl) = .ok (some ttl.milliseconds) ∧ 1 ≤ ttl.milliseconds
  ne_invalidKey : ∀ e, a.reply ≠ .error (.invalidKey e)
  ne_ttlNotPositive : ∀ ttl, a.reply ≠ .error (.ttlNotPositive ttl)

theorem Access.passes [LawfulStore σ] {a : Access σ} (hs : Valid a.store)
    (hkey : StoreKey.IsLegal a.call.key) (httl : ∀ ttl ∈ a.call.ttl?, ttl.isPositive) :
    a.Passes where
  key := StoreKey.check_eq_ok_iff.2 hkey
  ttl ttl h := by
    refine ⟨?_, Duration.one_le_milliseconds (httl ttl h)⟩
    rw [ttlMilliseconds, if_pos (httl ttl h)]
  ne_invalidKey e h := by
    cases (refusal_of_error hs h).1 with
    | invalidKey he =>
      rw [StoreKey.check_eq_ok_iff.2 hkey] at he
      cases he
  ne_ttlNotPositive ttl h := by
    cases (refusal_of_error hs h).1 with
    | ttlNotPositive hd hpos =>
      rw [httl ttl hd] at hpos
      cases hpos

namespace Fleet

variable [LawfulStore σ] {s : Fleet σ} {i : Nat} {e : Event} {events : List (Nat × Event)}
  {key : Text} {x : Slot} {now : Instant}

theorem IsApt.passes {a : Access σ} (h : s.IsApt) (hs : Valid s.store) (he : e.isOwn)
    (ha : s.access? i e = some a) : a.Passes := by
  obtain ⟨cache, hi, -⟩ := Option.bind_eq_some_iff.1 ha
  obtain ⟨⟨raw, hkey⟩, hcall⟩ := h.access he hi ha
  have hstore : Valid a.store := by
    rw [(step_of_access? ha).1]
    exact hs
  exact Access.passes hstore (Cache.isLegal_storeKey hkey) hcall.ttl

variable [ExactStore σ] [EnduringStore σ]

/-! ## The invariant -/

/-- All that is left in the store has a deadline exactly if its header names an end. -/
structure Marked (s : Fleet σ) : Prop where
  valid : Valid s.store
  apt : s.IsApt
  marked {key : Text} {x : Slot} : kept? s.store key = some x →
    Entry.Tells x.value x.deadline.isSome
  passes : ∀ a ∈ s.log, a.Passes

theorem Marked.step (h : s.Marked) (he : e.isOwn) : (s.step i e).Marked where
  valid := valid_step h.valid i e
  apt := h.apt.step
  marked {key x} hx := by
    cases ha : s.access? i e with
    | none =>
      rw [store_step_of_none ha] at hx
      exact h.marked hx
    | some a =>
      obtain ⟨cache, hi, -⟩ := Option.bind_eq_some_iff.1 ha
      have hcall := (h.apt.access he hi ha).2
      rw [(step_of_access? ha).2] at hx
      rcases leaves s.now a.call h.valid key x hx with hold | ⟨-, hvalue, hdeadline⟩
      · exact h.marked hold
      · rw [hdeadline, StoreCall.deadlineOf, Option.isSome_map]
        exact hcall.value _ hvalue
  passes a ha := by
    rw [log_step] at ha
    rcases List.mem_append.1 ha with hnew | hold
    · exact h.apt.passes h.valid he (Option.mem_toList.1 hnew)
    · exact h.passes a hold

theorem Marked.run (h : s.Marked) (hown : ∀ e ∈ events, e.2.isOwn) : (s.run events).Marked := by
  induction events generalizing s with
  | nil => exact h
  | cons e later ih =>
    exact ih (h.step (hown e List.mem_cons_self)) fun e he => hown e (List.mem_cons_of_mem _ he)

/-! ## Lifetimes -/

/-- What is live under a key ends if and only if its header says so. -/
structure Lives (s : Fleet σ) (key : Text) (x : Slot) : Prop where
  /-- The header names neither a bound nor a window just if there is no deadline. -/
  marked : ∃ fields, Entry.fields? x.value = some fields ∧ (x.deadline = none ↔
    Json.get? Entry.absoluteField fields = none ∧ Json.get? Entry.slidingField fields = none)
  ends : ∀ d ∈ x.deadline, ∀ later : Instant, d < later.utcUs → slot? s.store later key = none
  /-- What has no deadline stays through any event that does not write or remove it, and at all
  times. -/
  stays : x.deadline = none → ∀ {i e},
    (∀ a ∈ s.access? i e, a.call.key = key → a.call = .get key) →
    ∀ now : Instant, slot? (s.step i e).store now key = some x

theorem Marked.lives (h : s.Marked) (hx : slot? s.store now key = some x) : s.Lives key x where
  marked := by
    obtain ⟨fields, hfields, hnames⟩ := h.marked (kept?_of_slot? h.valid hx)
    refine ⟨fields, hfields, ?_⟩
    rw [Entry.namesEnd] at hnames
    cases hd : x.deadline with
    | none => simpa [hd] using hnames
    | some d =>
      rw [hd, Option.isSome_some, Bool.or_eq_true] at hnames
      constructor
      · intro hnone
        cases hnone
      · rintro ⟨habsolute, hsliding⟩
        simp [habsolute, hsliding] at hnames
  ends d hd later hlt := slot?_of_past h.valid hx hd hlt
  stays hends i e hother now' := by
    have hnow : slot? s.store s.now key = some x := slot?_of_endless h.valid hx hends
    rw [← slot?_step_of_get h.valid hother] at hnow
    exact slot?_of_endless (valid_step h.valid i e) hnow hends

theorem marked_start {store : σ} {caches : List (Cache × Backend)} (hvalid : Valid store)
    (hempty : ∀ key, kept? store key = none) : (start store now caches).Marked where
  valid := hvalid
  apt := isApt_start
  marked {key x} hx := by
    rw [show kept? (start store now caches).store key = none from hempty key] at hx
    cases hx
  passes a ha := by cases ha

end Fleet

theorem AnyStore.IsEmpty.kept?_eq_none {store : AnyStore} (h : store.IsEmpty) (key : Text) :
    kept? store key = none := by
  cases h with
  | memory => rfl
  | redis => rfl

/-- **Checks never fail, and headers and deadlines agree.** Whatever callers of whatever caches do in
whatever order on an empty store that they share, and however the clock is set meanwhile, every call
passes the checks of the store, and what is live ends just if its header says so. -/
theorem Fleet.lifetimes_run {store : AnyStore} (hempty : store.IsEmpty) (now : Instant)
    (caches : List (Cache × Backend)) (events : List (Nat × Event))
    (hown : ∀ e ∈ events, e.2.isOwn) :
    let s := (start store now caches).run events
    (∀ a ∈ s.log, a.Passes) ∧
      ∀ (key : Text) (t : Instant) (x : Slot), slot? s.store t key = some x → s.Lives key x :=
  have h := (marked_start hempty.valid hempty.kept?_eq_none).run hown
  ⟨h.passes, fun _ _ _ hx => h.lives hx⟩

/-- Two caches without a prefix and one with another encoding under a prefix, all on one server. -/
def Fleet.threeCaches : Fleet AnyStore :=
  start (.redis ⟨{}, "revcache", "cache"⟩) default
    [(default, ⟨"cache", true⟩), (default, ⟨"cache", true⟩),
      ({ encoding := .punycode, keyPrefix := "p", prefix_legal := .inr (by decide) },
        ⟨"cache", true⟩)]

/-- A set with a window, a read by another cache between whose calls the clock is set back, and a
set without an end under the prefix. -/
def Fleet.renewedInThePast : List (Nat × Event) :=
  let opened (i : Nat) (command : Command) : List (Nat × Event) :=
    [(i, .start command true), (i, .begin 0), (i, .ask 0), (i, .beginAttempt 0),
      (i, .endAttempt 0 (.opened 0)), (i, .wake 0), (i, .perform 0)]
  opened 0 (.set "k" [1] { sliding := some ⟨3000500, by decide⟩ }) ++
    (0, .advance ⟨2000500, by decide⟩) :: opened 1 (.get "k") ++
    [(1, .advance ⟨-1500500, by decide⟩), (1, .perform 0)] ++ opened 2 (.set "é" [2] {})

/-- The renewed entry ends with a whole millisecond after its window, the other one does not end. -/
theorem Fleet.lifetimes_run_renewedInThePast :
    let s := threeCaches.run renewedInThePast
    (∀ e ∈ renewedInThePast, e.2.isOwn) ∧ (∀ a ∈ s.log, a.Passes) ∧
    (∃ x, slot? s.store s.now "k" = some x ∧ x.deadline = some 3501000 ∧ s.Lives "k" x) ∧
    ∃ x, slot? s.store s.now "p.xn--9ca" = some x ∧ x.deadline = none ∧ s.Lives "p.xn--9ca" x := by
  intro s
  have hown : ∀ e ∈ renewedInThePast, e.2.isOwn := by decide
  obtain ⟨hpasses, hlives⟩ : (∀ a ∈ s.log, a.Passes) ∧ ∀ (key : Text) (t : Instant) (x : Slot),
      slot? s.store t key = some x → s.Lives key x := lifetimes_run .redis _ _ _ hown
  have hended : (slot? s.store s.now "k").map Slot.deadline = some (some 3501000) := by
    subst s
    decide +kernel
  have hendless : (slot? s.store s.now "p.xn--9ca").map Slot.deadline = some none := by
    subst s
    decide +kernel
  clear_value s
  obtain ⟨x, hx, hxd⟩ := Option.map_eq_some_iff.1 hended
  obtain ⟨y, hy, hyd⟩ := Option.map_eq_some_iff.1 hendless
  exact ⟨hown, hpasses, ⟨x, hx, hxd, hlives _ _ x hx⟩, ⟨y, hy, hyd, hlives _ _ y hy⟩⟩

end SlidingCache
