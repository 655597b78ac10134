import SlidingCache.Cache.Live
import SlidingCache.Proofs.Store.Lawful
import SlidingCache.Table

/-!
# A plain dictionary that forgets

What a cache amounts to for a caller who has it to himself: a dictionary from application keys to
payloads, each with the bound and the window that were planned for it and the end of its time to
live. An item is live until that end and up to its bound, and a read of a live item starts its
window anew. There is no store key, no stored form, no revision and no clearing up.

`Dictionary.Fits` says that no instant computed on the way leaves the calendar and that 64 bits hold
every window.
-/

namespace SlidingCache

open StoreCall (deadlineOf)

/-! ## Items -/

structure Item where
  payload : Bytes
  absolute : Option Instant := none
  sliding : Option Duration := none
  /-- When its time to live ends, in UTC. -/
  deadline : Option Int := none
  deriving DecidableEq

/-- The item that a planned set makes. -/
def ExpirationPlan.item (plan : ExpirationPlan) (value : Bytes) (now : Instant) : Item :=
  ⟨value, plan.absolute, plan.sliding, deadlineOf plan.ttl now⟩

namespace Item

/-- The end of the time to live is no longer part of it, the bound still is. -/
def isLive (x : Item) (now : Instant) : Bool :=
  x.deadline.all (now.utcUs < ·) && x.absolute.all (now.utcUs ≤ ·.utcUs)

/-- The window that a read starts: cut off at the bound. -/
def window? (x : Item) (now : Instant) : Option Duration :=
  x.sliding.map fun window => match x.absolute with
    | some bound => min window (bound.since now)
    | none => window

/-- An item after a read. -/
def renewed (x : Item) (now : Instant) : Item :=
  match x.window? now with
  | some left => if left.isPositive then { x with deadline := deadlineOf (some left) now } else x
  | none => x

/-- The calendar has the bound and the end of the time to live, and 64 bits hold the window. -/
structure Fits (x : Item) : Prop where
  absolute : ∀ bound ∈ x.absolute, bound.utcUs < calendarUs
  deadline : ∀ us ∈ x.deadline, us < calendarUs
  sliding : ∀ window ∈ x.sliding, window.us ≤ Json.greatestInteger

instance (x : Item) : Decidable x.Fits :=
  decidable_of_iff ((∀ bound ∈ x.absolute, bound.utcUs < calendarUs) ∧
    (∀ us ∈ x.deadline, us < calendarUs) ∧ ∀ window ∈ x.sliding, window.us ≤ Json.greatestInteger)
    ⟨fun ⟨ha, hd, hs⟩ => ⟨ha, hd, hs⟩, fun ⟨ha, hd, hs⟩ => ⟨ha, hd, hs⟩⟩

variable {x : Item} {now now' : Instant}

theorem isLive_iff : x.isLive now ↔
    (∀ us ∈ x.deadline, now.utcUs < us) ∧ ∀ bound ∈ x.absolute, now.utcUs ≤ bound.utcUs := by
  simp [isLive, Option.all_eq_true]

/-- What is dead stays dead. -/
theorem isDead_of_le (h : x.isLive now = false) (hle : now.utcUs ≤ now'.utcUs) :
    x.isLive now' = false := by
  rw [Bool.eq_false_iff] at *
  intro hlive
  obtain ⟨hdeadline, hbound⟩ := isLive_iff.1 hlive
  apply h
  rw [isLive_iff]
  exact ⟨fun us hus => Int.lt_of_le_of_lt hle (hdeadline us hus),
    fun bound hmem => Int.le_trans hle (hbound bound hmem)⟩

theorem renewed_of_isPositive {left : Duration} (h : x.window? now = some left)
    (hpos : left.isPositive) :
    x.renewed now = { x with deadline := deadlineOf (some left) now } := by
  simp only [renewed, h, hpos, if_true]

theorem renewed_of_not_isPositive {left : Duration} (h : x.window? now = some left)
    (hpos : left.isPositive = false) : x.renewed now = x := by
  simp only [renewed, h, hpos, Bool.false_eq_true, if_false]

theorem renewed_of_none (h : x.window? now = none) : x.renewed now = x := by
  simp only [renewed, h]

end Item

/-! ## The dictionary -/

/-- A dictionary and its clock. -/
structure Dictionary where
  now : Instant
  items : Table Text Item := []

/-- Time that passes, and then a command. -/
abbrev Round := Duration × Command

namespace Dictionary

/-- Lets time pass, as far as the calendar goes. -/
def wait (d : Dictionary) (time : Duration) : Dictionary :=
  match d.now.add time with
  | .ok now => { d with now }
  | .error _ => d

def put (d : Dictionary) (key : Text) (x : Item) : Dictionary :=
  { d with items := d.items.put key x }

def erase (d : Dictionary) (key : Text) : Dictionary := { d with items := d.items.erase key }

def live? (d : Dictionary) (key : Text) : Option Item :=
  (d.items.get? key).filter (·.isLive d.now)

/-- Reads an item: if it is live, its window starts anew. -/
def touch (d : Dictionary) (key : Text) : Dictionary :=
  match d.live? key with
  | some x => d.put key (x.renewed d.now)
  | none => d

/-- What becomes of a refused command: a lenient read misses, all others raise. -/
def refusal (fault : CacheFault) : Command → Except CacheFault Answer
  | .tryGet _ buffer => .ok (.buffer false buffer)
  | .get _ | .set .. | .remove _ | .refresh _ => .error fault

/-- A command whose key is accepted. -/
def perform (d : Dictionary) : Command → Except CacheFault Answer × Dictionary
  | .get key => (.ok (.payload ((d.live? key).map Item.payload)), d.touch key)
  | .tryGet key buffer => match d.live? key with
    | some x => (.ok (.buffer true (buffer ++ x.payload)), d.touch key)
    | none => (.ok (.buffer false buffer), d)
  | .refresh key => (.ok .done, d.touch key)
  | .remove key => (.ok .done, d.erase key)
  | .set key value options => match options.plan d.now with
    | .ok plan => (.ok .done, d.put key (plan.item value d.now))
    | .error fault => (.error (.plan fault), d)

/-- A command, refused if the encoding refuses its key. -/
def call (encoding : KeyEncoding) (d : Dictionary) (command : Command) :
    Except CacheFault Answer × Dictionary :=
  match encoding.encode command.key with
  | .ok _ => d.perform command
  | .error e => (refusal (.invalidKey e) command, d)

def round (encoding : KeyEncoding) (d : Dictionary) (r : Round) :
    Except CacheFault Answer × Dictionary := (d.wait r.1).call encoding r.2

/-- The answers to one command after another. -/
def answers (encoding : KeyEncoding) : Dictionary → List Round → List (Except CacheFault Answer)
  | _, [] => []
  | d, r :: rounds => (d.round encoding r).1 :: answers encoding (d.round encoding r).2 rounds

/-- Whatever is put into the dictionary in the course of these rounds fits. -/
def Fits (encoding : KeyEncoding) : Dictionary → List Round → Prop
  | _, [] => True
  | d, r :: rounds => (∀ row ∈ (d.round encoding r).2.items, row.2.Fits) ∧
      Fits encoding (d.round encoding r).2 rounds

instance decidableFits (encoding : KeyEncoding) :
    (d : Dictionary) → (rounds : List Round) → Decidable (d.Fits encoding rounds)
  | _, [] => inferInstanceAs (Decidable True)
  | d, r :: rounds =>
    have := decidableFits encoding (d.round encoding r).2 rounds
    inferInstanceAs (Decidable (_ ∧ _))

/-! ## What a command makes of the items -/

variable {d : Dictionary} {key k : Text} {x : Item} {command : Command}

@[simp] theorem get?_items_put :
    (d.put key x).items.get? k = if key = k then some x else d.items.get? k := Table.get?_put ..

@[simp] theorem get?_items_erase :
    (d.erase key).items.get? k = if key = k then none else d.items.get? k := Table.get?_erase ..

theorem live?_eq_some_iff : d.live? key = some x ↔ d.items.get? key = some x ∧ x.isLive d.now :=
  Option.filter_eq_some_iff

theorem live?_eq_none_iff :
    d.live? key = none ↔ ∀ x, d.items.get? key = some x → x.isLive d.now = false := by
  simp [live?, Option.filter_eq_none_iff]

theorem touch_of_none (h : d.live? key = none) : d.touch key = d := by rw [touch, h]

theorem touch_of_some (h : d.live? key = some x) : d.touch key = d.put key (x.renewed d.now) := by
  rw [touch, h]

theorem mem_items_of_get? (h : d.items.get? key = some x) : (key, x) ∈ d.items := by
  generalize d.items = items at h
  induction items with
  | nil => cases h
  | cons row items ih =>
    obtain ⟨k, y⟩ := row
    rw [Table.get?] at h
    split at h
    · rename_i heq
      cases h
      rw [heq]
      exact List.mem_cons_self
    · exact List.mem_cons_of_mem _ (ih h)

/-- What is put into a dictionary in which everything fits does. -/
theorem fits_of_put (h : ∀ row ∈ (d.put key x).items, row.2.Fits) : x.Fits :=
  h (key, x) (mem_items_of_get? (by rw [get?_items_put, if_pos rfl]))

end Dictionary

end SlidingCache
