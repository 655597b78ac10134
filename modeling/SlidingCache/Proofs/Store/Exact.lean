import SlidingCache.Proofs.Store.Any

/-!
# Stores that leave nothing open

A `LawfulStore` may give any greater revision and may lose a slot at any time after its deadline. An
`ExactStore` has no such choice: a slot is seen until its deadline and not after it, a call uses up
one revision at most, and none of them if it loses against another revision.

So what such a store answers to a call with a legal key and a positive time to live, or none,
follows from what it shows and from its last revision (`StoreCall.answer`, `ExactStore.perform_eq`).
The store in memory and the store on a Redis server are both exact. They differ in
`ExactStore.reaches`, for only the first one keeps deadlines as dates, and in
`ExactStore.keepsAtDeadline`.
-/

namespace SlidingCache

open LawfulStore
open StoreCall (deadlineOf)

/-- Whether a deadline leaves something live; `keeps` says that it does so still when it comes. -/
def inTime (keeps : Bool) (now : Instant) (deadline : Option Int) : Bool :=
  deadline.all fun d => if keeps then now.utcUs ≤ d else now.utcUs < d

/-- A store of which calls and clock alone decide what it answers. -/
class ExactStore (σ : Type) [Store σ] [LawfulStore σ] where
  /-- Whether a slot is still there when its deadline comes. -/
  keepsAtDeadline : σ → Bool
  /-- Whether the store has a deadline for a time to live that begins now. -/
  reaches : σ → Instant → Duration → Bool
  keepsAtDeadline_perform {s : σ} {now call} : Valid s →
    keepsAtDeadline (Store.perform now call s).2 = keepsAtDeadline s
  slot?_later {s : σ} {now now' : Instant} {key} : Valid s → now.utcUs ≤ now'.utcUs →
    slot? s now' key = (slot? s now key).filter fun x => inTime (keepsAtDeadline s) now' x.deadline
  counted {s : σ} {now call} : Valid s →
    lastRevision (Store.perform now call s).2 = lastRevision s ∨
      lastRevision (Store.perform now call s).2 = lastRevision s + 1 ∧
        ∀ key n, (Store.perform now call s).1 ≠ .error (.conflict key n)
  /-- A deadline that cannot be had is the only reason for a fault of time. -/
  reaches_eq_false {s : σ} {now call fault} : Valid s →
    (Store.perform now call s).1 = .error (.time fault) →
    ∃ ttl, call.ttl? = some ttl ∧ reaches s now ttl = false
  reaches_of_isOk {s : σ} {now call} : Valid s → (Store.perform now call s).1.isOk →
    ∀ ttl ∈ call.ttl?, reaches s now ttl

/-! ## What an exact store answers -/

/-- A call with a legal key whose time to live, if it has one, is positive. -/
structure StoreCall.IsProper (call : StoreCall) : Prop where
  legal : StoreKey.IsLegal call.key
  ttl : ∀ ttl ∈ call.ttl?, ttl.isPositive

instance (call : StoreCall) : Decidable call.IsProper :=
  decidable_of_iff (StoreKey.IsLegal call.key ∧ ∀ ttl ∈ call.ttl?, ttl.isPositive)
    ⟨fun h => ⟨h.1, h.2⟩, fun h => ⟨h.1, h.2⟩⟩

/-- What is answered to a proper call, and what becomes of the view and of the last revision. -/
def StoreCall.answer (now : Instant) (view : View) (last : Revision) :
    (call : StoreCall) → Except StoreFault call.Reply × View × Revision
  | .get key => (.ok ((view key).map Slot.held), view, last)
  | .put key value ttl =>
    (.ok (last + 1), view.set key (some ⟨value, last + 1, deadlineOf ttl now⟩), last + 1)
  | .update key value n ttl =>
    if (view key).map Slot.revision = some n then
      (.ok (last + 1), view.set key (some ⟨value, last + 1, deadlineOf ttl now⟩), last + 1)
    else (.error (.conflict key n), view, last)
  | .delete key none => (.ok (), view.set key none, last)
  | .delete key (some n) =>
    if (view key).map Slot.revision = some n then (.ok (), view.set key none, last)
    else (.error (.conflict key n), view, last)

section
variable {now : Instant} {view view' : View} {last last' : Revision} {call : StoreCall}
  {reply : Except StoreFault call.Reply}

/-- A proper call is refused for a conflict only, or because it has no deadline. -/
theorem StoreCall.IsProper.refusal {fault : StoreFault} (h : call.IsProper)
    (hr : Refusal now view call fault) (htime : ∀ f, fault ≠ .time f) :
    ∃ n, call.expected? = some n ∧ (view call.key).map Slot.revision ≠ some n ∧
      fault = .conflict call.key n := by
  cases hr with
  | conflict hn hne => exact ⟨_, hn, hne, rfl⟩
  | invalidKey he =>
    rw [StoreKey.check_eq_ok_iff.2 h.legal] at he
    cases he
  | ttlNotPositive httl hpos =>
    rw [h.ttl _ httl] at hpos
    cases hpos
  | time => exact absurd rfl (htime _)

/-- The laws leave no choice where revisions are counted one by one. -/
theorem Performed.eq_answer (h : Performed now view last call reply view' last')
    (hcall : call.IsProper) (htime : ∀ f, reply ≠ .error (.time f))
    (hcounted : last' = last ∨ last' = last + 1 ∧ ∀ key n, reply ≠ .error (.conflict key n)) :
    (reply, view', last') = call.answer now view last := by
  have hnext (hlt : last < last') : last' = last + 1 :=
    hcounted.elim (fun hsame => absurd (hsame ▸ hlt) (Int.lt_irrefl _)) And.left
  cases h with
  | @refused _ fault _ hr hle =>
    obtain ⟨n, hn, hne, rfl⟩ := hcall.refusal hr fun f hf => htime f (by rw [hf])
    obtain rfl : last' = last := by
      rcases hcounted with hsame | ⟨-, hno⟩
      · exact hsame
      · exact absurd rfl (hno _ _)
    cases call with
    | put | get => cases hn
    | delete key expected =>
      obtain rfl : expected = some n := hn
      exact (if_neg hne).symm
    | update key value expected ttl =>
      obtain rfl : expected = n := Option.some.inj hn
      exact (if_neg hne).symm
  | got => rfl
  | put _ hlt =>
    obtain rfl := hnext hlt
    rfl
  | updated _ hlt _ hrev =>
    obtain rfl := hnext hlt
    exact (if_pos hrev).symm
  | @deleted key expected _ hrev =>
    cases expected with
    | none => rfl
    | some n => exact (if_pos (hrev n rfl)).symm

end

namespace ExactStore

variable {σ : Type} [Store σ] [LawfulStore σ] [ExactStore σ] {s : σ} {now : Instant}
  {call : StoreCall}

/-- **An exact store answers as it must.** -/
theorem perform_eq (h : Valid s) (hcall : call.IsProper)
    (htime : ∀ fault, (Store.perform now call s).1 ≠ .error (.time fault)) :
    ((Store.perform now call s).1, slot? (Store.perform now call s).2 now,
        lastRevision (Store.perform now call s).2) =
      call.answer now (slot? s now) (lastRevision s) :=
  (performed now call h).eq_answer hcall htime (counted h)

/-- A call after which the same is live leaves the same live for later. -/
theorem slot?_of_unchanged {later : Instant} (h : Valid s)
    (hsame : slot? (Store.perform now call s).2 now = slot? s now)
    (hle : now.utcUs ≤ later.utcUs) :
    slot? (Store.perform now call s).2 later = slot? s later := by
  funext key
  rw [slot?_later (valid_perform h) hle, slot?_later h hle, hsame, keepsAtDeadline_perform h]

end ExactStore

/-! ## The store in memory -/

namespace MemoryStore

variable {s : MemoryStore} {now now' : Instant} {key : Text} {value : Bytes}
  {ttl : Option Duration}

/-- Whether the end of a time to live has a date. -/
def reaches (now : Instant) (ttl : Duration) : Bool :=
  now.reading + ttl.milliseconds * 1000 < calendarUs

theorem isDead_eq {r : Record} : isDead r now = !inTime false now r.slot.deadline := by
  cases r with
  | mk value revision deadline =>
    cases deadline with
    | none => rfl
    | some d => simp [isDead, hasCome, inTime, Record.slot, ← decide_not]

theorem slot?_wait (hle : now.utcUs ≤ now'.utcUs) :
    s.slot? now' key = (s.slot? now key).filter fun x => inTime false now' x.deadline := by
  cases hr : s.records.get? key with
  | none => simp [slot?_of_get?_eq_none hr]
  | some r =>
    simp only [slot?_of_get? hr]
    cases hnow : isDead r now with
    | true => simp [isDead_of_le hnow hle]
    | false =>
      have hdead : isDead r now' = !inTime false now' r.slot.deadline := isDead_eq
      rw [hdead]
      cases hin : inTime false now' r.slot.deadline <;> simp [Option.filter, hin]

theorem revision_write (s : MemoryStore) (key : Text) (value : Bytes) (ttl : Option Duration)
    (now : Instant) : (s.write key value ttl now).2.revision = s.revision + 1 := by
  unfold write
  dsimp only
  split <;> rfl

/-- A write that fails does so without a conflict. -/
theorem write_ne_conflict {k : Text} {n : Revision} :
    (s.write key value ttl now).1 ≠ .error (.conflict k n) := by
  intro h
  unfold write at h
  dsimp only at h
  split at h
  · rename_i e he
    cases h
    -- the deadline knows nothing of revisions
    have hr : Refusal now (fun _ => none) (.put key value ttl) (.conflict k n) :=
      refusal_of_deadline he
    cases hr with
    | conflict hn => cases hn
  · cases h
  · cases h

theorem revision_perform (call : StoreCall) (s : MemoryStore) (now : Instant) :
    (Store.perform now call s).2.revision = s.revision ∨
      (Store.perform now call s).2.revision = s.revision + 1 ∧
        ∀ key n, (Store.perform now call s).1 ≠ .error (.conflict key n) := by
  cases call with
  | put key value ttl =>
    simp only [Store.perform, put]
    split
    · exact .inl rfl
    · exact .inr ⟨revision_write s key value ttl now, fun _ _ => write_ne_conflict⟩
  | get key =>
    simp only [Store.perform, get]
    split
    · exact .inl rfl
    · exact .inl revision_live
  | delete key expected =>
    simp only [Store.perform, delete]
    split
    · exact .inl rfl
    · split
      · exact .inl revision_live
      · split <;> exact .inl revision_live
  | update key value expected ttl =>
    simp only [Store.perform, update]
    split
    · exact .inl rfl
    · split
      · refine .inr ⟨?_, fun _ _ => write_ne_conflict⟩
        rw [revision_write, revision_live]
      · exact .inl revision_live

theorem reaches_of_deadline {d : Option Instant} {t : Duration}
    (h : deadline (some t) now = .ok d) : reaches now t := by
  have hpos := (deadline_eq_ok h).1 t rfl
  rw [deadline_some hpos] at h
  obtain ⟨length, hlength, h⟩ := Chain.bind_eq_ok.1 h
  obtain ⟨i, hi, -⟩ := Chain.bind_eq_ok.1 h
  have hus := Duration.us_of_ofMilliseconds (Chain.mapError_eq_ok.1 hlength)
  have hreading := (Instant.add_eq_ok_iff.1 (Chain.mapError_eq_ok.1 hi)).1
  have hin := i.inCalendar
  simp only [reaches, decide_eq_true_eq]
  omega

theorem reaches_of_write (h : (s.write key value ttl now).1.isOk) :
    ∀ t ∈ ttl, reaches now t := by
  rintro t ⟨⟩
  unfold write at h
  dsimp only at h
  split at h
  · cases h
  · exact reaches_of_deadline ‹_›
  · exact reaches_of_deadline ‹_›

theorem reaches_of_perform {call : StoreCall} (h : (Store.perform now call s).1.isOk) :
    ∀ t ∈ call.ttl?, reaches now t := by
  cases call with
  | get | delete => rintro _ ⟨⟩
  | put key value ttl =>
    simp only [Store.perform, put] at h
    split at h
    · cases h
    · exact reaches_of_write h
  | update key value expected ttl =>
    simp only [Store.perform, update] at h
    split at h
    · cases h
    · split at h
      · exact reaches_of_write h
      · cases h

instance : ExactStore MemoryStore where
  keepsAtDeadline _ := false
  reaches _ := reaches
  keepsAtDeadline_perform _ := rfl
  slot?_later _ hle := slot?_wait hle
  counted _ := revision_perform _ _ _
  reaches_eq_false h hreply := by
    cases (LawfulStore.refusal_of_error h hreply).1 with
    | time httl _ hlate => exact ⟨_, httl, decide_eq_false (by omega)⟩
  reaches_of_isOk _ := reaches_of_perform

end MemoryStore

/-! ## The store on a Redis server -/

namespace RedisStore

variable {s : RedisStore} {now now' : Instant} {key : Text} {value : Bytes} {ttl : Option Duration}

theorem deadline_of_slotOf {row : RedisKey} {x : Slot} (h : slotOf row = some x) :
    x.deadline = row.deadline := by
  obtain ⟨value, deadline⟩ := row
  cases value with
  | counter numeral => cases h
  | entry value revision =>
    cases h
    rfl

theorem isLive_eq {row : RedisKey} :
    s.keyspace.isLive row now.utcUs = inTime s.keyspace.keepsAtDeadline now row.deadline := by
  simp only [Keyspace.isLive, inTime]
  cases row.deadline with
  | none => rfl
  | some d => simp only [Option.all_some]

theorem slot?_wait (hle : now.utcUs ≤ now'.utcUs) :
    s.slot? now' key =
      (s.slot? now key).filter fun x => inTime s.keyspace.keepsAtDeadline now' x.deadline := by
  cases hrow : s.keyspace.keys.get? (s.entryKey key) with
  | none => simp [slot?_eq_none hrow]
  | some row =>
    simp only [slot?_eq hrow]
    cases hx : slotOf row with
    | none => simp
    | some x =>
      have hlive : s.keyspace.isLive row now'.utcUs =
          inTime s.keyspace.keepsAtDeadline now' x.deadline := by
        rw [isLive_eq, deadline_of_slotOf hx]
      cases hlater : s.keyspace.isLive row now'.utcUs with
      | true =>
        rw [isLive_of_le hlater hle]
        simp [Option.filter, ← hlive, hlater]
      | false => cases s.keyspace.isLive row now.utcUs <;> simp [Option.filter, ← hlive, hlater]

/-- What every call does to the server and its counter, and that it knows no fault of time. -/
structure Counted (s : RedisStore) {α : Type} (after : Except StoreFault α × RedisStore) : Prop where
  keeps : after.2.keyspace.keepsAtDeadline = s.keyspace.keepsAtDeadline
  timeless : ∀ fault, after.1 ≠ .error (.time fault)
  counted : after.2.lastRevision = s.lastRevision ∨
    after.2.lastRevision = s.lastRevision + 1 ∧ ∀ key n, after.1 ≠ .error (.conflict key n)

theorem counted_refused {α : Type} {fault : StoreFault} (h : ∀ f, fault ≠ .time f) :
    Counted s ((.error fault : Except StoreFault α), s) where
  keeps := rfl
  timeless f hf := h f (Except.error.inj hf)
  counted := .inl rfl

theorem counted_invalidKey {α : Type} {e : InvalidKey} :
    Counted s ((.error (.invalidKey e) : Except StoreFault α), s) := by
  apply counted_refused
  intro f hf
  cases hf

theorem counted_conflict {α : Type} {k : Text} {n : Revision} :
    Counted s ((.error (.conflict k n) : Except StoreFault α), s) := by
  apply counted_refused
  intro f hf
  cases hf

theorem counted_read {α : Type} {reply : α} : Counted s (.ok reply, s) where
  keeps := rfl
  timeless f hf := by cases hf
  counted := .inl rfl

theorem ne_time_of_ttlMilliseconds {e : StoreFault} (h : ttlMilliseconds ttl = .error e)
    (f : TimeFault) : e ≠ .time f := by
  unfold ttlMilliseconds at h
  split at h
  · cases h
  · split at h <;> cases h
    exact nofun

theorem Valid.counted_putScript (h : s.Valid) (key : Text) (value : Bytes) (ms : Option Nat)
    (now : Instant) :
    Counted s ((.ok (s.putScript key value ms now.utcUs).1 : Except StoreFault Revision),
      (s.putScript key value ms now.utcUs).2) := by
  obtain ⟨n, hn, heq⟩ := h.putScript_eq key value ms now
  rw [heq]
  exact {
    keeps := rfl
    timeless := nofun
    counted := .inr ⟨lastRevision_written.trans hn.symm, nofun⟩ }

theorem counted_erased {α : Type} {reply : α} :
    Counted s ((.ok reply : Except StoreFault α),
      s.withKeys (s.keyspace.keys.erase (s.entryKey key))) where
  keeps := rfl
  timeless := nofun
  counted := .inl (lastRevision_withKeys get?_counterKey_erase)

theorem Valid.counted_perform (h : s.Valid) (now : Instant) (call : StoreCall) :
    Counted s (Store.perform now call s) := by
  cases call with
  | put key value ttl =>
    simp only [Store.perform, put]
    cases hkey : StoreKey.check key with
    | error e => exact counted_invalidKey
    | ok =>
      cases hms : ttlMilliseconds ttl with
      | error e => exact counted_refused (ne_time_of_ttlMilliseconds hms)
      | ok ms => exact h.counted_putScript key value ms now
  | get key =>
    simp only [Store.perform, get]
    cases hkey : StoreKey.check key with
    | error e => exact counted_invalidKey
    | ok => exact counted_read
  | delete key expected =>
    simp only [Store.perform, delete]
    cases hkey : StoreKey.check key with
    | error e => exact counted_invalidKey
    | ok =>
      cases expected with
      | none => exact counted_erased
      | some n =>
        simp only [Chain.mapError_ok, deleteScript, Option.map_some, Option.getD_some,
          List.isEmpty_iff, ofInt_ne_nil, false_or, h.entry?_revision_iff]
        by_cases hn : (s.slot? now key).map Slot.revision = some n
        · simp only [hn, if_true]
          exact counted_erased
        · simp only [hn, if_false]
          exact counted_conflict
  | update key value expected ttl =>
    simp only [Store.perform, update]
    cases hkey : StoreKey.check key with
    | error e => exact counted_invalidKey
    | ok =>
      cases hms : ttlMilliseconds ttl with
      | error e => exact counted_refused (ne_time_of_ttlMilliseconds hms)
      | ok ms =>
        simp only [Chain.mapError_ok, updateScript]
        split <;> rename_i hscript <;> split at hscript <;> cases hscript
        · exact h.counted_putScript key value ms now
        · exact counted_conflict

instance : ExactStore RedisStore where
  keepsAtDeadline s := s.keyspace.keepsAtDeadline
  reaches _ _ _ := true
  keepsAtDeadline_perform h := (h.counted_perform _ _).keeps
  slot?_later _ hle := slot?_wait hle
  counted h := (h.counted_perform _ _).counted
  reaches_eq_false h hreply := absurd hreply ((h.counted_perform _ _).timeless _)
  reaches_of_isOk _ _ _ _ := rfl

end RedisStore

/-! ## A store of either kind -/

namespace AnyStore

instance : ExactStore AnyStore where
  keepsAtDeadline
    | memory s => ExactStore.keepsAtDeadline s
    | redis s => ExactStore.keepsAtDeadline s
  reaches
    | memory s => ExactStore.reaches s
    | redis s => ExactStore.reaches s
  keepsAtDeadline_perform {s now call} h := by
    cases s with
    | memory s => exact ExactStore.keepsAtDeadline_perform (σ := MemoryStore) h
    | redis s => exact ExactStore.keepsAtDeadline_perform (σ := RedisStore) h
  slot?_later {s now now' key} h hle := by
    cases s with
    | memory s => exact ExactStore.slot?_later (σ := MemoryStore) h hle
    | redis s => exact ExactStore.slot?_later (σ := RedisStore) h hle
  counted {s now call} h := by
    cases s with
    | memory s => exact ExactStore.counted (σ := MemoryStore) h
    | redis s => exact ExactStore.counted (σ := RedisStore) h
  reaches_eq_false {s now call fault} h hreply := by
    cases s with
    | memory s => exact ExactStore.reaches_eq_false (σ := MemoryStore) h hreply
    | redis s => exact ExactStore.reaches_eq_false (σ := RedisStore) h hreply
  reaches_of_isOk {s now call} h hreply := by
    cases s with
    | memory s => exact ExactStore.reaches_of_isOk (σ := MemoryStore) h hreply
    | redis s => exact ExactStore.reaches_of_isOk (σ := RedisStore) h hreply

end AnyStore

end SlidingCache
