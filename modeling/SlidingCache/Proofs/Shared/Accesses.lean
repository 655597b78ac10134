import SlidingCache.Entry
import SlidingCache.Proofs.Store.Lawful

/-!
# What becomes of a write

`Access` is one call that reached a store. From the accesses of a store, latest first, one reads off
the value that was put last under a key and what came after it (`lastPut?`), and the deadline that
is in force for it (`inForce?`). `Kept` says that nothing but that value is live under the key, and
why it no longer is when nothing is (`Lost`).

A call is `Harmless` if it writes over a revision only what that revision holds, and deletes a
revision only if the absolute bound in its value has passed. Harmless calls and time keep every
write (`Traced.access`, `Traced.wait`).
-/

namespace SlidingCache

open LawfulStore
open StoreCall (deadlineOf)

/-- The stored value is an entry whose absolute bound has passed. -/
def HasLapsed (value : Bytes) (now : Instant) : Prop :=
  ∃ entry bound, Entry.decode value = .ok entry ∧ entry.absolute = some bound ∧
    bound.utcUs < now.utcUs

theorem HasLapsed.mono {value : Bytes} {now now' : Instant} (h : HasLapsed value now)
    (hle : now.utcUs ≤ now'.utcUs) : HasLapsed value now' := by
  obtain ⟨entry, bound, hdecode, hbound, hlt⟩ := h
  exact ⟨entry, bound, hdecode, hbound, Int.lt_of_lt_of_le hlt hle⟩

section
variable {σ : Type} [Store σ]

/-- The value that a read finds live under a key. -/
def held? (s : σ) (now : Instant) (key : Text) : Option Held :=
  match (Store.perform now (.get key) s).1 with
  | .ok found => found
  | .error _ => none

/-- A call that reached a store: the store before it, when, and the call. -/
structure Access (σ : Type) where
  store : σ
  now : Instant
  call : StoreCall

namespace Access

def isAccepted (a : Access σ) : Bool := (Store.perform a.now a.call a.store).1.isOk

/-- The value that the access put under a key. -/
def put? (a : Access σ) (key : Text) : Option Bytes :=
  match a.call with
  | .put k value _ => if k = key ∧ a.isAccepted then some value else none
  | _ => none

/-- Whether the access wrote under a key, over a revision or not. -/
def wrote (a : Access σ) (key : Text) : Bool :=
  match a.call with
  | .put k .. | .update k .. => k = key && a.isAccepted
  | _ => false

end Access

/-- The value that was put last under a key, and the accesses since then. -/
def lastPut? (key : Text) : List (Access σ) → Option (Bytes × List (Access σ))
  | [] => none
  | a :: older =>
    match a.put? key with
    | some value => some (value, [])
    | none => (lastPut? key older).map fun p => (p.1, a :: p.2)

/-- The deadline that the last write under a key has set. -/
def inForce? (key : Text) : List (Access σ) → Option Int
  | [] => none
  | a :: older => if a.wrote key then deadlineOf a.call.ttl? a.now else inForce? key older

/-- Why a value that was put is not live any more. -/
inductive Lost (key : Text) (value : Bytes) (log since : List (Access σ)) (now : Instant) : Prop
  /-- It was deleted, whatever its revision. -/
  | removed {a} : a ∈ since → a.isAccepted → a.call = .delete key none →
    Lost key value log since now
  /-- The deadline in force has passed. -/
  | ended {d} : inForce? key log = some d → d ≤ now.utcUs → Lost key value log since now
  /-- It was the value of the revision that was deleted after its absolute bound had passed. -/
  | lapsed {a n} : a ∈ since → a.isAccepted → a.call = .delete key (some n) →
    held? a.store a.now key = some ⟨value, n⟩ → HasLapsed value a.now → Lost key value log since now

/-- A store lives up to the writes that reached it. -/
structure Kept (key : Text) (s : σ) (now : Instant) (log : List (Access σ)) : Prop where
  live : ∀ {x}, held? s now key = some x → ∃ since, lastPut? key log = some (x.value, since)
  lost : ∀ {value since}, lastPut? key log = some (value, since) → held? s now key = none →
    Lost key value log since now

variable {key : Text} {value : Bytes} {now now' : Instant} {log since : List (Access σ)}
  {a : Access σ}

theorem Lost.wait (h : Lost key value log since now)
    (hle : now.utcUs ≤ now'.utcUs) : Lost key value log since now' := by
  cases h with
  | removed hmem hacc hcall => exact .removed hmem hacc hcall
  | ended hd hpassed => exact .ended hd (Int.le_trans hpassed hle)
  | lapsed hmem hacc hcall hheld hlapsed => exact .lapsed hmem hacc hcall hheld hlapsed

theorem put?_eq_none (h : a.wrote key = false) : a.put? key = none := by
  simp only [Access.wrote, Access.put?] at *
  split at h <;> simp_all

/-- An access that puts nothing under the key leaves the last put. -/
theorem lastPut?_cons (h : a.put? key = none) (log : List (Access σ)) :
    lastPut? key (a :: log) = (lastPut? key log).map fun p => (p.1, a :: p.2) := by
  simp only [lastPut?, h]

theorem inForce?_cons (h : a.wrote key = false) :
    inForce? key (a :: log) = inForce? key log := by simp [inForce?, h]

theorem Lost.access (h : Lost key value log since now) (ha : a.wrote key = false) :
    Lost key value (a :: log) (a :: since) now := by
  cases h with
  | removed hmem hacc hcall => exact .removed (List.mem_cons_of_mem _ hmem) hacc hcall
  | ended hd hpassed => exact .ended ((inForce?_cons ha).trans hd) hpassed
  | lapsed hmem hacc hcall hheld hlapsed =>
    exact .lapsed (List.mem_cons_of_mem _ hmem) hacc hcall hheld hlapsed

end

section
variable {σ : Type} [Store σ] [LawfulStore σ]
variable {s : σ} {now now' : Instant} {key : Text} {log : List (Access σ)} {call : StoreCall}

theorem held?_eq_slot? (h : Valid s) (hlegal : StoreKey.IsLegal key) :
    held? s now key = (slot? s now key).map Slot.held := by
  rw [held?, perform_get h hlegal]

theorem isLegal_of_held? {x : Held} (h : Valid s) (hx : held? s now key = some x) :
    StoreKey.IsLegal key := by
  have hp := performed now (.get key) h
  unfold held? at hx
  generalize (Store.perform now (.get key) s).1 = reply,
    slot? (Store.perform now (.get key) s).2 now = view at hp hx
  generalize lastRevision (Store.perform now (.get key) s).2 = last at hp
  cases hp with
  | refused => cases hx
  | got hlegal => exact hlegal

/-- A call that spares what it does not know. -/
def Harmless (s : σ) (now : Instant) : StoreCall → Prop
  | .put .. | .get _ | .delete _ none => True
  | .delete key (some n) =>
    ∀ x, slot? s now key = some x → x.revision = n → HasLapsed x.value now
  | .update key value n _ => ∀ x, slot? s now key = some x → x.revision = n → x.value = value

/-- What `Kept` says, seen from the store's own view. -/
structure Traced (key : Text) (s : σ) (now : Instant) (log : List (Access σ)) : Prop where
  legal : ∀ {p}, lastPut? key log = some p → StoreKey.IsLegal key
  live : ∀ {x}, slot? s now key = some x →
    (∃ since, lastPut? key log = some (x.value, since)) ∧ inForce? key log = x.deadline
  lost : ∀ {value since}, lastPut? key log = some (value, since) → slot? s now key = none →
    Lost key value log since now

theorem Traced.kept (h : Traced key s now log) (hs : Valid s) : Kept key s now log where
  live {x} hx := by
    rw [held?_eq_slot? hs (isLegal_of_held? hs hx)] at hx
    obtain ⟨slot, hslot, rfl⟩ := Option.map_eq_some_iff.1 hx
    exact (h.live hslot).1
  lost hput hnone := by
    rw [held?_eq_slot? hs (h.legal hput), Option.map_eq_none_iff] at hnone
    exact h.lost hput hnone

theorem traced_nil (h : slot? s now key = none) : Traced key s now [] where
  legal hp := by cases hp
  live hx := by rw [h] at hx; cases hx
  lost hp := by cases hp

theorem Traced.wait (h : Traced key s now log) (hs : Valid s) (hle : now.utcUs ≤ now'.utcUs) :
    Traced key s now' log := by
  rcases later key hs hle with hsame | ⟨hnone, x, d, hx, hd, hpassed⟩
  · exact {
      legal := h.legal
      live := fun hx => h.live (hsame ▸ hx)
      lost := fun hput hnone => (h.lost hput (hsame ▸ hnone)).wait hle }
  · exact {
      legal := h.legal
      live := fun hx => by rw [hnone] at hx; cases hx
      lost := fun _ _ => .ended ((h.live hx).2.trans hd) hpassed }

/-! ## One more access -/

/-- An access after which the same is live under the key. -/
theorem Traced.access_same {t : σ} {a : Access σ} (h : Traced key s now log)
    (ha : a.wrote key = false) (hslot : slot? t now key = slot? s now key) :
    Traced key t now (a :: log) where
  legal hp := by
    rw [lastPut?_cons (put?_eq_none ha)] at hp
    obtain ⟨p, hp, -⟩ := Option.map_eq_some_iff.1 hp
    exact h.legal hp
  live hx := by
    obtain ⟨⟨since, hput⟩, hforce⟩ := h.live (hslot ▸ hx)
    refine ⟨⟨a :: since, ?_⟩, (inForce?_cons ha).trans hforce⟩
    rw [lastPut?_cons (put?_eq_none ha), hput]
    rfl
  lost hp hnone := by
    rw [lastPut?_cons (put?_eq_none ha)] at hp
    obtain ⟨⟨value, since⟩, hput, ⟨⟩⟩ := Option.map_eq_some_iff.1 hp
    exact (h.lost hput (hslot ▸ hnone)).access ha

/-- An access after which something else is live under the key: what was put last, with the new
deadline in force. -/
theorem traced_written {t : σ} {x : Slot} {older : List (Access σ)} (since : List (Access σ))
    (hlegal : StoreKey.IsLegal key) (hslot : slot? t now key = some x)
    (hput : lastPut? key older = some (x.value, since)) (hforce : inForce? key older = x.deadline) :
    Traced key t now older where
  legal _ := hlegal
  live hx := by
    rw [hslot] at hx
    cases hx
    exact ⟨⟨since, hput⟩, hforce⟩
  lost _ hnone := by rw [hslot] at hnone; cases hnone

/-- A delete of what is live under the key: of whatever it is, or of something that has lapsed. -/
theorem Traced.access_deleted {t : σ} {a : Access σ} {expected : Option Revision}
    (h : Traced key s now log) (hs : Valid s) (hlegal : StoreKey.IsLegal key)
    (hstore : a.store = s) (hnow : a.now = now) (hacall : a.call = .delete key expected)
    (haccepted : a.isAccepted) (hcall : Harmless s now (.delete key expected))
    (hrev : ∀ n ∈ expected, (slot? s now key).map Slot.revision = some n)
    (hnone : slot? t now key = none) : Traced key t now (a :: log) where
  legal _ := hlegal
  live hx := by
    rw [hnone] at hx
    cases hx
  lost hput _ := by
    have hwrote : a.wrote key = false := by simp [Access.wrote, hacall]
    rw [lastPut?_cons (put?_eq_none hwrote)] at hput
    obtain ⟨⟨value, since⟩, hold, ⟨⟩⟩ := Option.map_eq_some_iff.1 hput
    cases expected with
    | none => exact .removed List.mem_cons_self haccepted hacall
    | some n =>
      obtain ⟨x, hx, hxrev⟩ := Option.map_eq_some_iff.1 (hrev n rfl)
      obtain ⟨⟨since', hlive⟩, -⟩ := h.live hx
      obtain ⟨rfl, -⟩ : x.value = value ∧ since' = since := by simpa using hlive.symm.trans hold
      refine .lapsed List.mem_cons_self haccepted hacall ?_ (hnow ▸ hcall x hx hxrev)
      rw [hstore, hnow, held?_eq_slot? hs hlegal, hx, ← hxrev]
      rfl

/-- **A harmless call keeps every write**: under each key there is still the value that was put
last, or a reason why not. -/
theorem Traced.access (h : Traced key s now log) (hs : Valid s) (hcall : Harmless s now call) :
    Traced key (Store.perform now call s).2 now (⟨s, now, call⟩ :: log) := by
  have hp := performed now call hs
  have hacc : (⟨s, now, call⟩ : Access σ).isAccepted = (Store.perform now call s).1.isOk := rfl
  have hnow : (⟨s, now, call⟩ : Access σ).now = now := rfl
  have hacall : (⟨s, now, call⟩ : Access σ).call = call := rfl
  have hstore : (⟨s, now, call⟩ : Access σ).store = s := rfl
  generalize (⟨s, now, call⟩ : Access σ) = a at hacc hnow hacall hstore ⊢
  generalize (Store.perform now call s).2 = t at hp ⊢
  generalize (Store.perform now call s).1 = reply at hp hacc
  generalize hview : slot? t now = view at hp
  generalize lastRevision t = last at hp
  cases hp with
  | refused =>
    have hwrote : a.wrote key = false := by
      simp only [Access.wrote, hacc, Except.isOk, Except.toBool]
      split <;> simp
    exact h.access_same hwrote (congrFun hview key)
  | got => exact h.access_same (by simp [Access.wrote, hacall]) (congrFun hview key)
  | @put k value ttl _ hlegal hlt hpos =>
    by_cases hk : key = k
    · subst hk
      have hwrote : a.wrote key := by simp [Access.wrote, hacall, hacc, Except.isOk, Except.toBool]
      refine traced_written (x := ⟨value, last, deadlineOf ttl now⟩) [] hlegal ?_ ?_ ?_
      · rw [hview, View.set_self]
      · simp [lastPut?, Access.put?, hacall, hacc, Except.isOk, Except.toBool]
      · simp [inForce?, hwrote, hacall, hnow, StoreCall.ttl?]
    · apply h.access_same (by simp [Access.wrote, hacall, Ne.symm hk])
      rw [hview, View.set_of_ne hk]
  | @updated k value expected ttl _ hlegal hlt hpos hrev =>
    by_cases hk : key = k
    · subst hk
      -- what was written is what the revision held
      obtain ⟨x, hx, hxrev⟩ := Option.map_eq_some_iff.1 hrev
      obtain rfl : x.value = value := hcall x hx hxrev
      obtain ⟨⟨since, hput⟩, -⟩ := h.live hx
      have hwrote : a.wrote key := by simp [Access.wrote, hacall, hacc, Except.isOk, Except.toBool]
      refine traced_written (x := ⟨x.value, last, deadlineOf ttl now⟩) (a :: since) hlegal ?_ ?_ ?_
      · rw [hview, View.set_self]
      · simp [lastPut?, Access.put?, hacall, hput]
      · simp [inForce?, hwrote, hacall, hnow, StoreCall.ttl?]
    · apply h.access_same (by simp [Access.wrote, hacall, Ne.symm hk])
      rw [hview, View.set_of_ne hk]
  | @deleted k expected hlegal hrev =>
    by_cases hk : key = k
    · subst hk
      refine h.access_deleted hs hlegal hstore hnow hacall ?_ hcall hrev ?_
      · simp [hacc, Except.isOk, Except.toBool]
      · rw [hview, View.set_self]
    · apply h.access_same (by simp [Access.wrote, hacall])
      rw [hview, View.set_of_ne hk]

end

end SlidingCache
