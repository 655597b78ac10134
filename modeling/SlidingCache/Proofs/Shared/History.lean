import SlidingCache.Proofs.Shared.Accesses
import SlidingCache.Proofs.Store.Exact

/-!
# The history of a bucket

Any number of clients call one store, each call at its reading of the clock; `history` lists the
accesses in their order.

In a history that begins with an unused bucket no revision is given twice, a call that names a
revision is let through exactly if that revision still stands under the key, and a call that is
refused changes nothing (`AnyStore.exact_history`). Behind it is one invariant, `Shows`: at every
moment an exact store shows under a key what the last access that changed the key has left there, if
its deadline has not come.
-/

namespace SlidingCache

open LawfulStore ExactStore
open StoreCall (deadlineOf)

/-! ## What a call changes -/

namespace StoreCall

/-- The revision that a reply gives to a write. -/
def given? : (call : StoreCall) → Except StoreFault call.Reply → Option Revision
  | put .., reply | update .., reply => reply.toOption
  | get _, _ | delete .., _ => none

/-- Whether a call with that reply has written under its key or deleted what was there. -/
def hasChanged : (call : StoreCall) → Except StoreFault call.Reply → Bool
  | put .., reply | update .., reply | delete .., reply => reply.isOk
  | get _, _ => false

/-- What a call that has changed its key has left there. -/
def left? (now : Instant) (call : StoreCall) (reply : Except StoreFault call.Reply) :
    Option Slot := do
  return ⟨← call.value?, ← call.given? reply, deadlineOf call.ttl? now⟩

section
variable {now : Instant} {call : StoreCall} {reply : Except StoreFault call.Reply} {n : Revision}

theorem of_left? {x : Slot} (h : call.left? now reply = some x) :
    call.given? reply = some x.revision ∧ deadlineOf call.ttl? now = x.deadline := by
  obtain ⟨value, -, h⟩ := Option.bind_eq_some_iff.1 h
  obtain ⟨n, hn, ⟨⟩⟩ := Option.bind_eq_some_iff.1 h
  exact ⟨hn, rfl⟩

theorem isOk_of_given? (h : call.given? reply = some n) : reply.isOk := by
  cases call with
  | get | delete => cases h
  | put | update =>
    rw [Chain.eq_ok_of_toOption h]
    rfl

theorem left?_of_given? (h : call.given? reply = some n) :
    ∃ value, call.left? now reply = some ⟨value, n, deadlineOf call.ttl? now⟩ := by
  cases call with
  | get | delete => cases h
  | put _ value | update _ value =>
    refine ⟨value, ?_⟩
    rw [left?, h]
    rfl

theorem hasChanged_of_given? (h : call.given? reply = some n) : call.hasChanged reply := by
  cases call with
  | get | delete => cases h
  | put | update => exact isOk_of_given? h

end

end StoreCall

namespace Performed

variable {now : Instant} {view view' : View} {last last' n : Revision} {call : StoreCall}
  {reply : Except StoreFault call.Reply} {key : Text}

theorem at_key (h : Performed now view last call reply view' last') (key : Text) :
    view' key =
      if call.key = key ∧ call.hasChanged reply then call.left? now reply else view key := by
  cases h with
  | @refused _ fault =>
    have hchanged : call.hasChanged (.error fault) = false := by cases call <;> rfl
    rw [if_neg (by simp [hchanged])]
  | got => rw [if_neg (by rintro ⟨-, ⟨⟩⟩)]
  | @put k | @updated k | @deleted k =>
    by_cases hk : k = key
    · subst hk
      rw [if_pos ⟨rfl, rfl⟩, View.set_self]
      rfl
    · rw [if_neg (fun h => hk h.1), View.set_of_ne (Ne.symm hk)]

theorem isLegal (h : Performed now view last call reply view' last') (hok : reply.isOk) :
    StoreKey.IsLegal call.key := by
  cases h with
  | refused => cases hok
  | got hlegal | put hlegal | updated hlegal | deleted hlegal => exact hlegal

/-- What a call that names a revision, or a time to live, has met when it is let through. -/
theorem met (h : Performed now view last call reply view' last') (hok : reply.isOk) :
    (∀ n ∈ call.expected?, (view call.key).map Slot.revision = some n) ∧
      ∀ ttl ∈ call.ttl?, ttl.isPositive := by
  cases h with
  | refused => cases hok
  | got => exact ⟨by rintro _ ⟨⟩, by rintro _ ⟨⟩⟩
  | put _ _ hpos => exact ⟨by rintro _ ⟨⟩, hpos⟩
  | updated _ _ hpos hrev =>
    refine ⟨?_, hpos⟩
    rintro n ⟨⟩
    exact hrev
  | deleted _ hrev => exact ⟨hrev, by rintro _ ⟨⟩⟩

/-- A write is given a revision after the last one, and no call goes back. -/
theorem le_last (h : Performed now view last call reply view' last') : last ≤ last' ∧
    ∀ n ∈ call.given? reply, last < n ∧ n ≤ last' := by
  cases h with
  | refused _ hle =>
    refine ⟨hle, fun n hn => ?_⟩
    cases call <;> cases hn
  | got | deleted => exact ⟨Int.le_refl _, by rintro _ ⟨⟩⟩
  | put _ hlt | updated _ hlt =>
    refine ⟨Int.le_of_lt hlt, ?_⟩
    rintro n ⟨⟩
    exact ⟨hlt, Int.le_refl _⟩

end Performed

/-! ## Accesses one after the other -/

section
variable {σ : Type} [Store σ]

namespace Access

def reply (a : Access σ) : Except StoreFault a.call.Reply := (Store.perform a.now a.call a.store).1

/-- The store after the access. -/
def after (a : Access σ) : σ := (Store.perform a.now a.call a.store).2

/-- The revision that the access gave to what it wrote. -/
def given? (a : Access σ) : Option Revision := a.call.given? a.reply

/-- Whether the access wrote under a key or deleted what was there. -/
def changes (a : Access σ) (key : Text) : Bool := a.call.key = key ∧ a.call.hasChanged a.reply

def left? (a : Access σ) : Option Slot := a.call.left? a.now a.reply

end Access

/-- The accesses that calls make, each at its reading of the clock, one after the other. -/
def history (s : σ) : List (Instant × StoreCall) → List (Access σ)
  | [] => []
  | (now, call) :: calls => ⟨s, now, call⟩ :: history (Store.perform now call s).2 calls

/-- **A revision stands under a key** if a write to the key was given it, the key was neither written
nor deleted since, and the deadline of that write has not come. -/
def Stands (key : Text) (n : Revision) (past : List (Access σ)) (keeps : Bool) (now : Instant) :
    Prop :=
  ∃ older a since, past = older ++ a :: since ∧ a.call.key = key ∧ a.given? = some n ∧
    (∀ b ∈ since, b.changes key = false) ∧ inTime keeps now (deadlineOf a.call.ttl? a.now)

/-- The last access that changed what is under a key. -/
def lastChange? (key : Text) (past : List (Access σ)) : Option (Access σ) :=
  past.reverse.find? (·.changes key)

variable {key : Text} {n : Revision} {a : Access σ} {past : List (Access σ)}

theorem lastChange?_concat : lastChange? key (past ++ [a]) =
    if a.changes key then some a else lastChange? key past := by
  rw [lastChange?, List.reverse_append]
  cases h : a.changes key <;> simp [h, lastChange?]

theorem Access.changes_of_given? (h : a.given? = some n) : a.changes a.call.key :=
  decide_eq_true ⟨rfl, StoreCall.hasChanged_of_given? h⟩

/-- A change is the last one as long as no other comes. -/
theorem lastChange?_of_changes {since : List (Access σ)} (h : a.changes key)
    (hsince : ∀ b ∈ since, b.changes key = false) :
    lastChange? key (past ++ a :: since) = some a := by
  refine List.find?_eq_some_iff_append.2 ⟨h, since.reverse, past.reverse, by simp, fun b hb => ?_⟩
  simpa using hsince b (List.mem_reverse.1 hb)

/-- What stands is what the last change has given. -/
theorem stands_iff {keeps : Bool} {now : Instant} : Stands key n past keeps now ↔
    ∃ a, lastChange? key past = some a ∧ a.given? = some n ∧
      inTime keeps now (deadlineOf a.call.ttl? a.now) := by
  constructor
  · rintro ⟨older, a, since, rfl, rfl, hgiven, hsince, htime⟩
    exact ⟨a, lastChange?_of_changes (Access.changes_of_given? hgiven) hsince, hgiven, htime⟩
  · rintro ⟨a, hlast, hgiven, htime⟩
    obtain ⟨hchanges, since, older, hpast, hsince⟩ := List.find?_eq_some_iff_append.1 hlast
    have hkey : a.call.key = key := (of_decide_eq_true hchanges).1
    refine ⟨older.reverse, a, since.reverse, ?_, hkey, hgiven, fun b hb => ?_, htime⟩
    · simpa using congrArg List.reverse hpast
    · simpa using hsince b (List.mem_reverse.1 hb)

end

/-! ## Revisions -/

section
variable {σ : Type} [Store σ] [LawfulStore σ]
variable {s : σ} {now now' : Instant} {key : Text} {a : Access σ} {past : List (Access σ)}
  {calls : List (Instant × StoreCall)}

theorem Access.performed (a : Access σ) (h : Valid a.store) :
    Performed a.now (slot? a.store a.now) (lastRevision a.store) a.call a.reply
      (slot? a.after a.now) (lastRevision a.after) := LawfulStore.performed a.now a.call h

theorem lt_of_mem_given {n : Revision} (h : Valid s)
    (hn : n ∈ (history s calls).filterMap Access.given?) : lastRevision s < n := by
  induction calls generalizing s with
  | nil => cases hn
  | cons c calls ih =>
    obtain ⟨hle, hgiven⟩ := (Access.performed ⟨s, c.1, c.2⟩ h).le_last
    rw [history, List.filterMap_cons] at hn
    split at hn
    · exact Int.lt_of_le_of_lt hle (ih (valid_perform h) hn)
    · rename_i m hm
      rcases List.mem_cons.1 hn with rfl | hn
      · exact (hgiven _ hm).1
      · exact Int.lt_of_le_of_lt hle (ih (valid_perform h) hn)

/-- Revisions are given in increasing order, over all keys. -/
theorem increasing_given (h : Valid s) :
    ((history s calls).filterMap Access.given?).Pairwise (· < ·) := by
  induction calls generalizing s with
  | nil => exact .nil
  | cons c calls ih =>
    rw [history, List.filterMap_cons]
    split
    · exact ih (valid_perform h)
    · rename_i m hm
      refine .cons (fun n hn => ?_) (ih (valid_perform h))
      have hle := ((Access.performed ⟨s, c.1, c.2⟩ h).le_last.2 m hm).2
      exact Int.lt_of_le_of_lt hle (lt_of_mem_given (valid_perform h) hn)

/-! ## What is live -/

theorem inTime_of_le {keeps : Bool} {deadline : Option Int} (h : inTime keeps now' deadline)
    (hle : now.utcUs ≤ now'.utcUs) : inTime keeps now deadline := by
  cases deadline with
  | none => rfl
  | some d =>
    cases keeps
    · simp only [inTime, Option.all_some, Bool.false_eq_true, if_false, decide_eq_true_eq] at *
      omega
    · simp only [inTime, Option.all_some, if_true, decide_eq_true_eq] at *
      omega

/-- What has outlived a moment has outlived every moment before it. -/
theorem filter_inTime (x : Option Slot) (keeps : Bool) (hle : now.utcUs ≤ now'.utcUs) :
    (x.filter (inTime keeps now ·.deadline)).filter (inTime keeps now' ·.deadline) =
      x.filter (inTime keeps now' ·.deadline) := by
  rw [Option.filter_filter]
  congr 1
  funext y
  cases hlater : inTime keeps now' y.deadline with
  | false => exact Bool.and_false _
  | true => rw [inTime_of_le hlater hle, Bool.and_self]

variable [ExactStore σ]

/-- **An exact store shows what the last change has left**, as long as its deadline allows. -/
def Shows (s : σ) (now : Instant) (past : List (Access σ)) : Prop :=
  ∀ key, slot? s now key = ((lastChange? key past).bind Access.left?).filter
    (inTime (keepsAtDeadline s) now ·.deadline)

namespace Shows

theorem wait (h : Shows s now past) (hs : Valid s) (hle : now.utcUs ≤ now'.utcUs) :
    Shows s now' past := by
  intro key
  rw [slot?_later hs hle, h key, filter_inTime _ _ hle]

theorem access (h : Shows a.store a.now past) (hs : Valid a.store) :
    Shows a.after a.now (past ++ [a]) := by
  intro key
  have hkeeps : keepsAtDeadline a.after = keepsAtDeadline a.store := keepsAtDeadline_perform hs
  have hkey := (a.performed hs).at_key key
  rw [lastChange?_concat, hkeeps]
  by_cases hc : a.call.key = key ∧ a.call.hasChanged a.reply
  · have hchanges : a.changes key := decide_eq_true hc
    rw [if_pos hchanges, Option.bind_some]
    rw [if_pos hc] at hkey
    -- what is seen at an instant has outlived it
    have hsame : slot? a.after a.now key =
        (slot? a.after a.now key).filter (inTime (keepsAtDeadline a.after) a.now ·.deadline) :=
      slot?_later (valid_perform hs) (Int.le_refl _)
    rw [hkeeps, hkey] at hsame
    exact hkey.trans hsame
  · have hchanges : ¬ a.changes key := mt of_decide_eq_true hc
    rw [if_neg hchanges, ← h key]
    exact hkey.trans (if_neg hc)

/-- So it is at every access of a history. -/
theorem history (h : Shows s now past) (hs : Valid s) (hfrom : ∀ c ∈ calls, now.utcUs ≤ c.1.utcUs)
    (hclock : calls.Pairwise fun c d => c.1.utcUs ≤ d.1.utcUs) {before since : List (Access σ)}
    (heq : SlidingCache.history s calls = before ++ a :: since) :
    Valid a.store ∧ Shows a.store a.now (past ++ before) ∧
      keepsAtDeadline a.store = keepsAtDeadline s := by
  induction calls generalizing s now past before with
  | nil => cases before <;> cases heq
  | cons c calls ih =>
    have hthen := h.wait hs (hfrom c List.mem_cons_self)
    cases before with
    | nil =>
      obtain ⟨rfl, -⟩ := List.cons.inj heq
      exact ⟨hs, by simpa using hthen, rfl⟩
    | cons b before =>
      obtain ⟨rfl, hrest⟩ := List.cons.inj heq
      obtain ⟨hlater, hclock⟩ := List.pairwise_cons.1 hclock
      obtain ⟨hvalid, hshows, hkeeps⟩ :=
        ih (hthen.access (a := ⟨s, c.1, c.2⟩) hs) (valid_perform hs) hlater hclock hrest
      exact ⟨hvalid, by simpa using hshows, hkeeps.trans (keepsAtDeadline_perform hs)⟩

/-- At first nothing is shown. -/
theorem of_unused (hs : Valid s) (hnone : ∀ now key, slot? s now key = none)
    (hclock : calls.Pairwise fun c d => c.1.utcUs ≤ d.1.utcUs) {since : List (Access σ)}
    (heq : SlidingCache.history s calls = past ++ a :: since) :
    Valid a.store ∧ Shows a.store a.now past := by
  cases calls with
  | nil => cases past <;> cases heq
  | cons c calls =>
    have hstart : Shows s c.1 [] := hnone c.1
    have hfrom : ∀ d ∈ c :: calls, c.1.utcUs ≤ d.1.utcUs := by
      intro d hd
      rcases List.mem_cons.1 hd with rfl | hd
      · exact Int.le_refl _
      · exact (List.pairwise_cons.1 hclock).1 d hd
    obtain ⟨hvalid, hshows, -⟩ := hstart.history hs hfrom hclock heq
    exact ⟨hvalid, hshows⟩

/-- A key shows a revision exactly if the revision stands. -/
theorem revision_iff (h : Shows s now past) {n : Revision} :
    (slot? s now key).map Slot.revision = some n ↔ Stands key n past (keepsAtDeadline s) now := by
  rw [stands_iff, h key]
  constructor
  · intro hrev
    obtain ⟨x, hx, rfl⟩ := Option.map_eq_some_iff.1 hrev
    obtain ⟨hx, htime⟩ := Option.filter_eq_some_iff.1 hx
    obtain ⟨a, ha, hleft⟩ := Option.bind_eq_some_iff.1 hx
    obtain ⟨hgiven, hdeadline⟩ := StoreCall.of_left? hleft
    exact ⟨a, ha, hgiven, hdeadline ▸ htime⟩
  · rintro ⟨a, ha, hgiven, htime⟩
    obtain ⟨value, hleft⟩ : ∃ value, a.left? = some ⟨value, n, deadlineOf a.call.ttl? a.now⟩ :=
      StoreCall.left?_of_given? hgiven
    rw [ha, Option.bind_some, hleft]
    simp [Option.filter, htime]

end Shows

/-! ## Calls that are let through -/

omit [ExactStore σ] in
theorem valid_of_mem_history (h : Valid s) (ha : a ∈ history s calls) : Valid a.store := by
  induction calls generalizing s with
  | nil => cases ha
  | cons c calls ih =>
    rcases List.mem_cons.1 ha with rfl | ha
    · exact h
    · exact ih (valid_perform h) ha

omit [ExactStore σ] in
/-- Only legal keys are written. -/
theorem Stands.isLegal {keeps : Bool} {n : Revision} (h : Stands key n past keeps now)
    (hpast : ∀ a ∈ past, Valid a.store) : StoreKey.IsLegal key := by
  obtain ⟨older, a, since, rfl, rfl, hgiven, -⟩ := h
  exact (a.performed (hpast a (by simp))).isLegal (StoreCall.isOk_of_given? hgiven)

/-- Whether the store has a deadline for what the access is to write. -/
def Access.canEnd (a : Access σ) : Prop :=
  ∀ ttl ∈ a.call.ttl?, ttl.isPositive ∧ reaches a.store a.now ttl

theorem Access.isAccepted_of_fits (hs : Valid a.store) (hlegal : StoreKey.IsLegal a.call.key)
    (hrev : ∀ n ∈ a.call.expected?, (slot? a.store a.now a.call.key).map Slot.revision = some n)
    (hend : a.canEnd) : a.isAccepted := by
  cases hreply : a.reply with
  | ok reply =>
    rw [Access.isAccepted, show (Store.perform a.now a.call a.store).1 = _ from hreply]
    rfl
  | error fault =>
    exfalso
    cases (refusal_of_error hs hreply).1 with
    | invalidKey he =>
      rw [StoreKey.check_eq_ok_iff.2 hlegal] at he
      cases he
    | conflict hn hne => exact hne (hrev _ hn)
    | ttlNotPositive httl hpos =>
      rw [(hend _ httl).1] at hpos
      cases hpos
    | time =>
      obtain ⟨ttl, httl, hno⟩ := reaches_eq_false hs hreply
      rw [(hend ttl httl).2] at hno
      cases hno

/-- A call that names a revision is let through exactly if the revision stands and the new value, if
it writes one, can have its deadline. -/
theorem Access.isAccepted_iff {n : Revision} (h : Shows a.store a.now past) (hs : Valid a.store)
    (hpast : ∀ b ∈ past, Valid b.store) (hn : a.call.expected? = some n) : a.isAccepted ↔
      Stands a.call.key n past (keepsAtDeadline a.store) a.now ∧ a.canEnd := by
  rw [← h.revision_iff]
  constructor
  · intro hok
    obtain ⟨hrev, hpos⟩ := (a.performed hs).met hok
    exact ⟨hrev n hn, fun ttl httl => ⟨hpos ttl httl, reaches_of_isOk hs hok ttl httl⟩⟩
  · rintro ⟨hrev, hend⟩
    refine Access.isAccepted_of_fits hs ((h.revision_iff.1 hrev).isLegal hpast) ?_ hend
    intro m hm
    obtain rfl : n = m := Option.some.inj (hn.symm.trans hm)
    exact hrev

/-- A call that is refused leaves what is live, now and later. -/
theorem Access.slot?_of_refused (hs : Valid a.store) (hrefused : a.isAccepted = false)
    (hle : a.now.utcUs ≤ now.utcUs) : slot? a.after now = slot? a.store now := by
  refine slot?_of_unchanged hs ?_ hle
  cases hreply : (Store.perform a.now a.call a.store).1 with
  | ok reply =>
    rw [Access.isAccepted, hreply] at hrefused
    cases hrefused
  | error fault => exact (refusal_of_error hs hreply).2

end

/-! ## Unused buckets -/

/-- Nothing was ever written to the bucket. Other buckets may be on its server. -/
structure RedisStore.IsUnused (s : RedisStore) : Prop where
  counter : s.keyspace.keys.get? s.counterKey = none
  entries : ∀ key, s.keyspace.keys.get? (s.entryKey key) = none

inductive AnyStore.IsUnused : AnyStore → Prop
  | memory : IsUnused (.memory {})
  | redis {s : RedisStore} : s.IsUnused → IsUnused (.redis s)

namespace RedisStore.IsUnused

variable {s : RedisStore} (h : s.IsUnused)
include h

theorem valid : s.Valid where
  counted hrow := by rw [h.counter] at hrow; cases hrow
  numbered hrow := by rw [h.entries] at hrow; cases hrow

theorem slot?_eq_none (now : Instant) (key : Text) : s.slot? now key = none :=
  RedisStore.slot?_eq_none (h.entries key)

theorem lastRevision_eq_zero : s.lastRevision = 0 := by
  rw [lastRevision, h.counter]

end RedisStore.IsUnused

namespace AnyStore

variable {s : AnyStore}

theorem IsUnused.valid (h : s.IsUnused) : Valid s := by
  cases h with
  | memory => exact MemoryStore.valid_default
  | redis h => exact h.valid

theorem IsUnused.slot?_eq_none (h : s.IsUnused) (now : Instant) (key : Text) :
    slot? s now key = none := by
  cases h with
  | memory => rfl
  | redis h => exact h.slot?_eq_none now key

/-- What clients may rely on in a history. -/
structure Exact (accesses : List (Access AnyStore)) : Prop where
  /-- No revision is given twice, or after a greater one. -/
  increasing : (accesses.filterMap Access.given?).Pairwise (· < ·)
  letThrough {past a since n} : accesses = past ++ a :: since → a.call.expected? = some n →
    (a.isAccepted ↔ Stands a.call.key n past (keepsAtDeadline a.store) a.now ∧ a.canEnd)
  refused {a now} : a ∈ accesses → a.isAccepted = false → a.now.utcUs ≤ now.utcUs →
    slot? a.after now = slot? a.store now

/-- **Revisions are exact.** -/
theorem exact_history (hunused : s.IsUnused) {calls : List (Instant × StoreCall)}
    (hclock : calls.Pairwise fun c d => c.1.utcUs ≤ d.1.utcUs) : Exact (history s calls) where
  increasing := increasing_given hunused.valid
  letThrough {past a since n} heq hn := by
    obtain ⟨hvalid, hshows⟩ := Shows.of_unused hunused.valid hunused.slot?_eq_none hclock heq
    have hpast : ∀ b ∈ past, Valid b.store := by
      intro b hb
      have hmem : b ∈ history s calls := heq ▸ List.mem_append_left _ hb
      exact valid_of_mem_history hunused.valid hmem
    exact Access.isAccepted_iff hshows hvalid hpast hn
  refused ha hrefused hle :=
    Access.slot?_of_refused (valid_of_mem_history hunused.valid ha) hrefused hle

/-- Two clients with the same revision, of whom the second loses; a delete, after which not even
the newest revision stands; and a write whose revision is tried on a key that was never written, and
on its own key when it is gone. -/
def contested : List (Instant × StoreCall) :=
  let t (us : Nat) (h : us < calendarUs) : Instant := ⟨us, some .utc, h⟩
  [(default, .put "k" [1] none), (default, .update "k" [2] 1 none),
    (t 1 (by decide), .update "k" [3] 1 none), (t 1 (by decide), .delete "k" (some 2)),
    (t 1 (by decide), .update "k" [4] 2 none),
    (t 2 (by decide), .put "k" [5] (some ⟨1000, by decide⟩)),
    (t 2 (by decide), .update "j" [6] 3 none),
    (t 1002 (by decide), .delete "k" (some 3))]

theorem exact_history_contested : Exact (history (memory {}) contested) ∧
    (history (memory {}) contested).map Access.isAccepted =
      [true, true, false, true, false, true, false, false] :=
  ⟨exact_history .memory (by decide), by decide +kernel⟩

/-- That a revision stands is not enough for an update: it may ask for a time to live that no write
is given. -/
theorem exact_history_zeroTtl : ∃ past a,
    history (memory {}) [(default, .put "k" [1] none), (default, .update "k" [2] 1 (some .zero))] =
        past ++ [a] ∧ a.call.expected? = some 1 ∧
      ¬ (a.isAccepted ↔ Stands a.call.key 1 past (keepsAtDeadline a.store) a.now) := by
  refine ⟨[_], _, rfl, rfl, fun h => ?_⟩
  have hstands : Stands ("k" : Text) 1 [⟨memory {}, default, .put "k" [1] none⟩] false
      default := ⟨[], _, [], rfl, rfl, rfl, List.forall_mem_nil _, rfl⟩
  have haccepted := h.2 hstands
  revert haccepted
  decide +kernel

end AnyStore

end SlidingCache
