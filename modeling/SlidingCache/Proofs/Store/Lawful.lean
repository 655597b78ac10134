import SlidingCache.Store.Basic

/-!
# What every store does

A store is seen through what it holds live for each key at an instant (`LawfulStore.slot?`) and the
last revision that it has given. `Performed` says, call by call, what is answered and how the view
changes; `Refusal` says why a call may be refused. A `LawfulStore` performs every call that way,
and by itself it loses a slot only when its deadline has come.

What is proved from these laws holds of every store.
-/

namespace SlidingCache

/-- What a store holds for a key, with its deadline in UTC. -/
structure Slot where
  value : Bytes
  revision : Revision
  deadline : Option Int
  deriving DecidableEq

def Slot.held (x : Slot) : Held := ⟨x.value, x.revision⟩

/-- What a store holds live for each key. -/
abbrev View := Text → Option Slot

namespace View

/-- The view with another slot, or none, for one of the keys. -/
def set (view : View) (key : Text) (slot : Option Slot) : View :=
  fun k => if k = key then slot else view k

@[simp] theorem set_self {view : View} {key : Text} {slot : Option Slot} :
    view.set key slot key = slot := if_pos rfl

theorem set_of_ne {view : View} {key k : Text} {slot : Option Slot} (h : k ≠ key) :
    view.set key slot k = view k := if_neg h

end View

namespace StoreCall

/-- The value that a call writes. -/
def value? : StoreCall → Option Bytes
  | put _ value _ | update _ value _ _ => some value
  | get _ | delete .. => none

/-- The time to live that a write asks for. -/
def ttl? : StoreCall → Option Duration
  | put _ _ ttl | update _ _ _ ttl => ttl
  | get _ | delete .. => none

/-- When a time to live that begins now ends. -/
def deadlineOf (ttl : Option Duration) (now : Instant) : Option Int :=
  ttl.map fun ttl => now.utcUs + ttl.milliseconds * 1000

end StoreCall

open StoreCall (deadlineOf)

/-- Why a store that is seen as `view` refuses a call. -/
inductive Refusal (now : Instant) (view : View) : StoreCall → StoreFault → Prop
  | invalidKey {call e} : StoreKey.check call.key = .error e →
    Refusal now view call (.invalidKey e)
  | conflict {call : StoreCall} {n} : call.expected? = some n →
    (view call.key).map Slot.revision ≠ some n → Refusal now view call (.conflict call.key n)
  | ttlNotPositive {call : StoreCall} {ttl} : call.ttl? = some ttl → ttl.isPositive = false →
    Refusal now view call (.ttlNotPositive ttl)
  /-- The deadline would lie beyond the calendar. -/
  | time {call : StoreCall} {ttl fault} : call.ttl? = some ttl → ttl.isPositive →
    (calendarUs : Int) ≤ now.reading + ttl.milliseconds * 1000 →
    Refusal now view call (.time fault)

/-- What a call answers and what it makes of the view and of the last revision. -/
inductive Performed (now : Instant) (view : View) (last : Revision) :
    (call : StoreCall) → Except StoreFault call.Reply → View → Revision → Prop
  | refused {call fault last'} : Refusal now view call fault → last ≤ last' →
    Performed now view last call (.error fault) view last'
  | got {key} : StoreKey.IsLegal key →
    Performed now view last (.get key) (.ok ((view key).map Slot.held)) view last
  | put {key value ttl n} : StoreKey.IsLegal key → last < n → (∀ d ∈ ttl, d.isPositive) →
    Performed now view last (.put key value ttl) (.ok n)
      (view.set key (some ⟨value, n, deadlineOf ttl now⟩)) n
  | updated {key value expected ttl n} : StoreKey.IsLegal key → last < n →
    (∀ d ∈ ttl, d.isPositive) → (view key).map Slot.revision = some expected →
    Performed now view last (.update key value expected ttl) (.ok n)
      (view.set key (some ⟨value, n, deadlineOf ttl now⟩)) n
  | deleted {key expected} : StoreKey.IsLegal key →
    (∀ n ∈ expected, (view key).map Slot.revision = some n) →
    Performed now view last (.delete key expected) (.ok ()) (view.set key none) last

/-- A store that keeps its promises as long as it is `Valid`. -/
class LawfulStore (σ : Type) [Store σ] where
  Valid : σ → Prop
  lastRevision : σ → Revision
  /-- What is live under a key at an instant. -/
  slot? : σ → Instant → View
  revision_le {s : σ} {now key x} : Valid s → slot? s now key = some x →
    x.revision ≤ lastRevision s
  /-- What is live stays so until its deadline, and nothing else appears. -/
  later {s : σ} {now now' : Instant} (key : Text) : Valid s → now.utcUs ≤ now'.utcUs →
    slot? s now' key = slot? s now key ∨
      slot? s now' key = none ∧
        ∃ x d, slot? s now key = some x ∧ x.deadline = some d ∧ d ≤ now'.utcUs
  valid_perform {s : σ} {now call} : Valid s → Valid (Store.perform now call s).2
  performed {s : σ} (now : Instant) (call : StoreCall) : Valid s →
    Performed now (slot? s now) (lastRevision s) call (Store.perform now call s).1
      (slot? (Store.perform now call s).2 now) (lastRevision (Store.perform now call s).2)

/-- A call of which nothing gives a store reason to refuse it. -/
structure StoreCall.Fits (call : StoreCall) (now : Instant) (view : View) : Prop where
  legal : StoreKey.IsLegal call.key
  expected : ∀ n ∈ call.expected?, (view call.key).map Slot.revision = some n
  ttl : ∀ ttl ∈ call.ttl?, ttl.isPositive ∧ now.reading + ttl.milliseconds * 1000 < calendarUs

theorem StoreCall.Fits.not_refusal {call : StoreCall} {now : Instant} {view : View}
    {fault : StoreFault} (h : call.Fits now view) : ¬ Refusal now view call fault := by
  intro hr
  cases hr with
  | invalidKey he =>
    rw [StoreKey.check_eq_ok_iff.2 h.legal] at he
    cases he
  | conflict hn hne => exact hne (h.expected _ hn)
  | ttlNotPositive httl hpos =>
    rw [(h.ttl _ httl).1] at hpos
    cases hpos
  | time httl _ hlate =>
    have := (h.ttl _ httl).2
    omega

theorem StoreCall.fits_get {key : Text} {now : Instant} {view : View}
    (hlegal : StoreKey.IsLegal key) : (get key).Fits now view where
  legal := hlegal
  expected n hn := by cases hn
  ttl d hd := by cases hd

theorem StoreCall.fits_delete {key : Text} {expected : Option Revision} {now : Instant}
    {view : View} (hlegal : StoreKey.IsLegal key)
    (hexpected : ∀ n ∈ expected, (view key).map Slot.revision = some n) :
    (delete key expected).Fits now view where
  legal := hlegal
  expected := hexpected
  ttl d hd := by cases hd

namespace LawfulStore

variable {σ : Type} [Store σ] [LawfulStore σ] {s : σ} {now : Instant} {key : Text}

theorem refusal_of_error {call : StoreCall} {fault : StoreFault} (h : Valid s)
    (hreply : (Store.perform now call s).1 = .error fault) :
    Refusal now (slot? s now) call fault ∧
      slot? (Store.perform now call s).2 now = slot? s now := by
  have hp := performed now call h
  rw [hreply] at hp
  generalize herror : (Except.error fault : Except StoreFault call.Reply) = reply,
    slot? (Store.perform now call s).2 now = view at hp ⊢
  generalize lastRevision (Store.perform now call s).2 = last at hp
  cases hp with
  | refused hr =>
    cases herror
    exact ⟨hr, rfl⟩
  | got | put | updated | deleted => cases herror

/-- A read of a legal key is never refused. -/
theorem perform_get (h : Valid s) (hlegal : StoreKey.IsLegal key) :
    (Store.perform now (.get key) s).1 = .ok ((slot? s now key).map Slot.held) := by
  have hp := performed now (.get key) h
  generalize (Store.perform now (.get key) s).1 = reply,
    slot? (Store.perform now (.get key) s).2 now = view at hp ⊢
  generalize lastRevision (Store.perform now (.get key) s).2 = last at hp
  cases hp with
  | refused hr => exact absurd hr (StoreCall.fits_get hlegal).not_refusal
  | got => rfl

theorem slot?_perform_get (h : Valid s) :
    slot? (Store.perform now (.get key) s).2 now = slot? s now := by
  have hp := performed now (.get key) h
  generalize (Store.perform now (.get key) s).1 = reply,
    slot? (Store.perform now (.get key) s).2 now = view at hp ⊢
  generalize lastRevision (Store.perform now (.get key) s).2 = last at hp
  cases hp with
  | refused => rfl
  | got => rfl

/-- A call leaves what is under other keys. -/
theorem slot?_perform_of_ne {call : StoreCall} (h : Valid s) (hne : key ≠ call.key) :
    slot? (Store.perform now call s).2 now key = slot? s now key := by
  have hp := performed now call h
  generalize (Store.perform now call s).1 = reply,
    slot? (Store.perform now call s).2 now = view at hp ⊢
  generalize lastRevision (Store.perform now call s).2 = last at hp
  cases hp with
  | refused | got => rfl
  | put | updated | deleted => exact View.set_of_ne hne

theorem perform_put {value : Bytes} {ttl : Option Duration} (h : Valid s)
    (hfits : (StoreCall.put key value ttl).Fits now (slot? s now)) :
    ∃ n, (Store.perform now (.put key value ttl) s).1 = .ok n ∧
      slot? (Store.perform now (.put key value ttl) s).2 now =
        (slot? s now).set key (some ⟨value, n, deadlineOf ttl now⟩) := by
  have hp := performed now (.put key value ttl) h
  generalize (Store.perform now (.put key value ttl) s).1 = reply,
    slot? (Store.perform now (.put key value ttl) s).2 now = view at hp ⊢
  generalize lastRevision (Store.perform now (.put key value ttl) s).2 = last at hp
  cases hp with
  | refused hr => exact absurd hr hfits.not_refusal
  | put => exact ⟨_, rfl, rfl⟩

theorem perform_update {value : Bytes} {n : Revision} {ttl : Option Duration} (h : Valid s)
    (hfits : (StoreCall.update key value n ttl).Fits now (slot? s now)) :
    ∃ n', (Store.perform now (.update key value n ttl) s).1 = .ok n' ∧
      slot? (Store.perform now (.update key value n ttl) s).2 now =
        (slot? s now).set key (some ⟨value, n', deadlineOf ttl now⟩) := by
  have hp := performed now (.update key value n ttl) h
  generalize (Store.perform now (.update key value n ttl) s).1 = reply,
    slot? (Store.perform now (.update key value n ttl) s).2 now = view at hp ⊢
  generalize lastRevision (Store.perform now (.update key value n ttl) s).2 = last at hp
  cases hp with
  | refused hr => exact absurd hr hfits.not_refusal
  | updated => exact ⟨_, rfl, rfl⟩

theorem slot?_of_update_ok {value : Bytes} {n n' : Revision} {ttl : Option Duration} (h : Valid s)
    (hreply : (Store.perform now (.update key value n ttl) s).1 = .ok n') :
    slot? (Store.perform now (.update key value n ttl) s).2 now =
      (slot? s now).set key (some ⟨value, n', deadlineOf ttl now⟩) := by
  have hp := performed now (.update key value n ttl) h
  rw [hreply] at hp
  generalize hok : (Except.ok n' : Except StoreFault Revision) = reply,
    slot? (Store.perform now (.update key value n ttl) s).2 now = view at hp ⊢
  generalize lastRevision (Store.perform now (.update key value n ttl) s).2 = last at hp
  cases hp with
  | refused => cases hok
  | updated =>
    cases hok
    rfl

/-- A write over a revision that has no other reason to be refused loses against another
revision. -/
theorem conflict_of_update_error {value : Bytes} {n : Revision} {ttl : Option Duration}
    {fault : StoreFault} (h : Valid s) (hlegal : StoreKey.IsLegal key)
    (httl : ∀ d ∈ ttl, d.isPositive ∧ now.reading + d.milliseconds * 1000 < calendarUs)
    (hreply : (Store.perform now (.update key value n ttl) s).1 = .error fault) :
    fault = .conflict key n ∧ (slot? s now key).map Slot.revision ≠ some n ∧
      slot? (Store.perform now (.update key value n ttl) s).2 now = slot? s now := by
  have hconflict : (slot? s now key).map Slot.revision ≠ some n := by
    intro hrevision
    have hfits : (StoreCall.update key value n ttl).Fits now (slot? s now) :=
      ⟨hlegal, by rintro _ ⟨⟩; exact hrevision, httl⟩
    obtain ⟨n', hok, -⟩ := perform_update h hfits
    rw [hok] at hreply
    cases hreply
  have hp := performed now (.update key value n ttl) h
  rw [hreply] at hp
  generalize herror : (Except.error fault : Except StoreFault Revision) = reply,
    slot? (Store.perform now (.update key value n ttl) s).2 now = view at hp ⊢
  generalize lastRevision (Store.perform now (.update key value n ttl) s).2 = last at hp
  cases hp with
  | updated => cases herror
  | refused hrefusal =>
    cases herror
    refine ⟨?_, hconflict, rfl⟩
    cases hrefusal with
    | conflict hn =>
      cases hn
      rfl
    | invalidKey he =>
      rw [StoreCall.key, StoreKey.check_eq_ok_iff.2 hlegal] at he
      cases he
    | ttlNotPositive hd hpos =>
      rw [(httl _ hd).1] at hpos
      cases hpos
    | time hd _ hlate =>
      have := (httl _ hd).2
      omega

theorem perform_delete {expected : Option Revision} (h : Valid s)
    (hfits : (StoreCall.delete key expected).Fits now (slot? s now)) :
    (Store.perform now (.delete key expected) s).1 = .ok () ∧
      slot? (Store.perform now (.delete key expected) s).2 now = (slot? s now).set key none := by
  have hp := performed now (.delete key expected) h
  generalize (Store.perform now (.delete key expected) s).1 = reply,
    slot? (Store.perform now (.delete key expected) s).2 now = view at hp ⊢
  generalize lastRevision (Store.perform now (.delete key expected) s).2 = last at hp
  cases hp with
  | refused hr => exact absurd hr hfits.not_refusal
  | deleted => exact ⟨rfl, rfl⟩

end LawfulStore

end SlidingCache
