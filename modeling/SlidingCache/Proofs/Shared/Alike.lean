import SlidingCache.Proofs.Shared.History

/-!
# The stores are interchangeable

The store in memory keeps a table and a queue of deadlines, with revisions as numbers; the store on
a Redis server has hashes with revisions as numerals, a counter and scripts. To clients they are the
same: the same calls at the same readings of the clock get the same answers, and leave the same keys
live with the same values, revisions and deadlines (`stores_interchangeable`).

The simulation is `Alike`: both stores show the same and have the same last revision. What an exact
store answers to a proper call depends on nothing else (`ExactStore.perform_eq`), so every call and
any time that passes keep the stores alike.
-/

namespace SlidingCache

open LawfulStore ExactStore

section
variable {σ : Type} [Store σ]

/-- The call of an access and what it was answered. -/
def Access.answer (a : Access σ) : (call : StoreCall) × Except StoreFault call.Reply :=
  ⟨a.call, a.reply⟩

/-- Whether the access failed because it reached beyond the calendar. -/
def Access.overruns (a : Access σ) : Bool :=
  match a.reply with
  | .error (.time _) => true
  | _ => false

/-- The store that calls leave. -/
def afterwards (s : σ) (calls : List (Instant × StoreCall)) : σ :=
  calls.foldl (fun s c => (Store.perform c.1 c.2 s).2) s

theorem Access.ne_time {a : Access σ} (h : a.overruns = false) (fault : TimeFault) :
    a.reply ≠ .error (.time fault) := by
  intro hreply
  rw [overruns, hreply] at h
  cases h

end

/-- Two stores that cannot be told apart from an instant on. -/
structure Alike {σ τ : Type} [Store σ] [Store τ] [LawfulStore σ] [LawfulStore τ] [ExactStore σ]
    [ExactStore τ] (s : σ) (t : τ) (now : Instant) : Prop where
  left : Valid s
  right : Valid t
  keeps : keepsAtDeadline s = keepsAtDeadline t
  last : lastRevision s = lastRevision t
  view : slot? s now = slot? t now

namespace Alike

variable {σ τ : Type} [Store σ] [Store τ] [LawfulStore σ] [LawfulStore τ] [ExactStore σ]
  [ExactStore τ] {s : σ} {t : τ} {now now' : Instant} {call : StoreCall}
  {calls : List (Instant × StoreCall)}

theorem wait (h : Alike s t now) (hle : now.utcUs ≤ now'.utcUs) : Alike s t now' where
  left := h.left
  right := h.right
  keeps := h.keeps
  last := h.last
  view := by
    funext key
    rw [slot?_later h.left hle, slot?_later h.right hle, h.view, h.keeps]

/-- A proper call is answered alike and keeps the stores alike. -/
theorem perform (h : Alike s t now) (hcall : call.IsProper)
    (hleft : ∀ fault, (Store.perform now call s).1 ≠ .error (.time fault))
    (hright : ∀ fault, (Store.perform now call t).1 ≠ .error (.time fault)) :
    (Store.perform now call s).1 = (Store.perform now call t).1 ∧
      Alike (Store.perform now call s).2 (Store.perform now call t).2 now := by
  have hs := perform_eq h.left hcall hleft
  have ht := perform_eq h.right hcall hright
  rw [h.view, h.last, ← ht] at hs
  obtain ⟨hreply, hafter⟩ := Prod.mk.inj hs
  obtain ⟨hview, hlast⟩ := Prod.mk.inj hafter
  refine ⟨hreply, valid_perform h.left, valid_perform h.right, ?_, hlast, hview⟩
  rw [keepsAtDeadline_perform h.left, keepsAtDeadline_perform h.right, h.keeps]

/-- **Proper calls are answered alike, one after the other.** -/
theorem run (h : Alike s t now) (hproper : ∀ c ∈ calls, c.2.IsProper)
    (hfrom : ∀ c ∈ calls, now.utcUs ≤ c.1.utcUs)
    (hclock : calls.Pairwise fun c d => c.1.utcUs ≤ d.1.utcUs)
    (hleft : ∀ a ∈ history s calls, a.overruns = false)
    (hright : ∀ {t : τ} {now call}, Valid t → ∀ fault,
      (Store.perform now call t).1 ≠ .error (.time fault)) :
    (history s calls).map Access.answer = (history t calls).map Access.answer ∧
      ∀ later, now.utcUs ≤ later.utcUs → (∀ c ∈ calls, c.1.utcUs ≤ later.utcUs) →
        Alike (afterwards s calls) (afterwards t calls) later := by
  induction calls generalizing s t now with
  | nil => exact ⟨rfl, fun later hle _ => h.wait hle⟩
  | cons c calls ih =>
    obtain ⟨hlater, hclock⟩ := List.pairwise_cons.1 hclock
    obtain ⟨hfirst, hleft⟩ := List.forall_mem_cons.1 hleft
    obtain ⟨hreply, hafter⟩ :=
      (h.wait (hfrom c List.mem_cons_self)).perform (hproper c List.mem_cons_self)
        (Access.ne_time hfirst) (hright h.right)
    obtain ⟨hanswers, hend⟩ :=
      ih hafter (fun d hd => hproper d (List.mem_cons_of_mem _ hd)) hlater hclock hleft
    refine ⟨?_, fun later _ hlast => ?_⟩
    · have hanswer : Access.answer ⟨s, c.1, c.2⟩ = Access.answer ⟨t, c.1, c.2⟩ :=
        congrArg (Sigma.mk c.2) hreply
      simp only [history, List.map_cons, hanswer, hanswers]
    · obtain ⟨hc, hlast⟩ := List.forall_mem_cons.1 hlast
      exact hend later hc hlast

end Alike

section
variable {s : RedisStore} {calls : List (Instant × StoreCall)}

theorem RedisStore.IsUnused.alike (hunused : s.IsUnused) (hexact : s.keyspace.keepsAtDeadline = false)
    (now : Instant) : Alike ({} : MemoryStore) s now where
  left := MemoryStore.valid_default
  right := hunused.valid
  keeps := hexact.symm
  last := hunused.lastRevision_eq_zero.symm
  view := funext fun key => (hunused.slot?_eq_none now key).symm

/-- **The two stores are equivalent.** On unused buckets, and as long as no deadline leaves the
calendar, the same calls are answered alike and leave the same behind. The server drops a key when
its deadline comes. -/
theorem stores_interchangeable (hunused : s.IsUnused) (hexact : s.keyspace.keepsAtDeadline = false)
    (hproper : ∀ c ∈ calls, c.2.IsProper)
    (hclock : calls.Pairwise fun c d => c.1.utcUs ≤ d.1.utcUs)
    (hcalendar : ∀ a ∈ history ({} : MemoryStore) calls, a.overruns = false) :
    (history ({} : MemoryStore) calls).map Access.answer = (history s calls).map Access.answer ∧
      ∀ now, (∀ c ∈ calls, c.1.utcUs ≤ now.utcUs) →
        slot? (afterwards ({} : MemoryStore) calls) now = slot? (afterwards s calls) now := by
  have hserver : ∀ {t : RedisStore} {now call}, Valid t → ∀ fault,
      (Store.perform now call t).1 ≠ .error (.time fault) :=
    fun h => (RedisStore.Valid.counted_perform h _ _).timeless
  cases calls with
  | nil => exact ⟨rfl, fun now _ => (hunused.alike hexact now).view⟩
  | cons c calls =>
    have hfrom : ∀ d ∈ c :: calls, c.1.utcUs ≤ d.1.utcUs :=
      List.forall_mem_cons.2 ⟨Int.le_refl _, (List.pairwise_cons.1 hclock).1⟩
    obtain ⟨hanswers, hend⟩ :=
      (hunused.alike hexact c.1).run hproper hfrom hclock hcalendar hserver
    exact ⟨hanswers, fun now hnow => (hend now (hnow c List.mem_cons_self) hnow).view⟩

open AnyStore (contested) in
/-- What two clients get when they contend for a key on either store, the server holding a key of
another bucket. -/
theorem stores_interchangeable_contested :
    let server : RedisStore :=
      ⟨{ keys := [("revcache:other:rev", ⟨.counter "7", none⟩)] }, "revcache", "cache"⟩
    server.IsUnused ∧
    (history ({} : MemoryStore) contested).map Access.answer =
        (history server contested).map Access.answer ∧
      ∀ now, (∀ c ∈ contested, c.1.utcUs ≤ now.utcUs) →
        slot? (afterwards ({} : MemoryStore) contested) now =
          slot? (afterwards server contested) now := by
  intro server
  have hunused : server.IsUnused := by
    refine ⟨by decide, fun key => if_neg fun h => ?_⟩
    -- the names of the buckets differ in their first letters
    have hletter : some (CodePoint.ofChar 'o') = some (CodePoint.ofChar 'c') :=
      congrArg (fun t : Text => (t.drop 9).head?) h
    exact absurd hletter (by decide)
  exact ⟨hunused, stores_interchangeable hunused rfl (by decide) (by decide) (by decide +kernel)⟩

end

end SlidingCache
