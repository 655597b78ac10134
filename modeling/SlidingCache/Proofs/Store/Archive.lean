import SlidingCache.Proofs.Store.Memory
import SlidingCache.Proofs.Table

/-!
# Dropping is invisible and complete

An `Archive` is the store in memory without any dropping: it keeps each record until it is told
otherwise, and a deadline is only compared with the clock when its record is looked at. While the
clock does not go back, nobody can tell the two apart, and after a write the store has no record
that is dead (`MemoryStore.dropping_invisible_and_complete`).

Two invariants carry this. What the store has lost was dead already (`MemoryStore.Sheds`), so both
see the same entries. And each deadline that a record has is still in the queue, which is in order
(`MemoryStore.Tidy`), so a write and a count find all the dead ones.
-/

namespace SlidingCache

/-! ## The archive -/

/-- A store that drops nothing of its own accord. -/
structure Archive where
  records : Table Text Record := []
  /-- The revision of the last write. -/
  revision : Revision := 0

namespace Archive

instance : Inhabited Archive := ⟨{}⟩

/-- The record of a key, unless its deadline has come. -/
def live? (a : Archive) (key : Text) (now : Instant) : Option Record :=
  (a.records.get? key).filter fun r => !MemoryStore.isDead r now

/-- Writes a record with the next revision. The revision is used up even if the deadline cannot be
represented. -/
def write (a : Archive) (key : Text) (value : Bytes) (ttl : Option Duration) (now : Instant) :
    Except StoreFault Revision × Archive :=
  let next := a.revision + 1
  match MemoryStore.deadline ttl now with
  | .error e => (.error e, ⟨a.records, next⟩)
  | .ok deadline => (.ok next, ⟨a.records.put key ⟨value, next, deadline⟩, next⟩)

def erase (a : Archive) (key : Text) : Archive := { a with records := a.records.erase key }

/-- Performs a call with a legal key. -/
def answer (now : Instant) (a : Archive) :
    (call : StoreCall) → Except StoreFault call.Reply × Archive
  | .put key value ttl => a.write key value ttl now
  | .get key => (.ok ((a.live? key now).map fun r => ⟨r.value, r.revision⟩), a)
  | .delete key none => (.ok (), a.erase key)
  | .delete key (some n) =>
    if (a.live? key now).map Record.revision = some n then (.ok (), a.erase key)
    else (.error (.conflict key n), a)
  | .update key value n ttl =>
    if (a.live? key now).map Record.revision = some n then a.write key value ttl now
    else (.error (.conflict key n), a)

instance : Store Archive where
  perform now call a := match StoreKey.check call.key with
    | .error e => (.error (.invalidKey e), a)
    | .ok _ => a.answer now call

/-- For how many keys a read finds something. -/
def size (a : Archive) (now : Instant) : Nat :=
  a.records.countP fun row => (a.live? row.1 now).isSome

end Archive

/-! ## What can be asked -/

/-- A store that can tell how many entries are live. -/
class SizedStore (σ : Type) where
  size : Instant → σ → Nat × σ

instance : SizedStore MemoryStore := ⟨fun now s => s.size now⟩

instance : SizedStore Archive := ⟨fun now a => (a.size now, a)⟩

/-- A call, or how many entries there are. -/
inductive Inquiry where
  | call (c : StoreCall)
  | size

/-- Whether a call writes a value. -/
def StoreCall.isWrite : StoreCall → Bool
  | put .. | update .. => true
  | get _ | delete .. => false

namespace Inquiry

abbrev Reply : Inquiry → Type
  | call c => Except StoreFault c.Reply
  | size => Nat

variable {σ : Type} [Store σ] [SizedStore σ]

def ask (now : Instant) : (q : Inquiry) → σ → q.Reply × σ
  | call c => Store.perform now c
  | size => SizedStore.size now

/-- What is answered to one inquiry after the other. -/
def replies : List (Instant × Inquiry) → σ → List ((q : Inquiry) × q.Reply)
  | [], _ => []
  | (now, q) :: rest, s => ⟨q, (q.ask now s).1⟩ :: replies rest (q.ask now s).2

/-- What they leave. -/
def left (asked : List (Instant × Inquiry)) (s : σ) : σ :=
  asked.foldl (fun s a => (a.2.ask a.1 s).2) s

end Inquiry

namespace MemoryStore

variable {s : MemoryStore} {a : Archive} {now now' : Instant} {key k : Text}

/-! ## The queue has every deadline -/

/-- The queue is in order and has the deadline of every record. -/
structure Tidy (s : MemoryStore) : Prop extends Valid s where
  sorted : s.queue.Pairwise fun d e => d.deadline.utcUs ≤ e.deadline.utcUs
  dated : ∀ {key r d}, s.records.get? key = some r → r.deadline = some d →
    ⟨d, r.revision, key⟩ ∈ s.queue
  distinct : (s.records.map Prod.fst).Nodup

theorem tidy_default : Tidy default where
  toValid := valid_default
  sorted := .nil
  dated h := by cases h
  distinct := List.nodup_nil

theorem sorted_enqueue {due : Due} {queue : List Due}
    (h : queue.Pairwise fun d e => d.deadline.utcUs ≤ e.deadline.utcUs) :
    (enqueue due queue).Pairwise fun d e => d.deadline.utcUs ≤ e.deadline.utcUs := by
  induction queue with
  | nil => exact List.pairwise_singleton _ _
  | cons d rest ih =>
    obtain ⟨hd, hrest⟩ := List.pairwise_cons.1 h
    simp only [enqueue]
    split
    · rename_i hlt
      refine List.pairwise_cons.2 ⟨?_, h⟩
      intro e he
      rcases List.mem_cons.1 he with rfl | he
      · exact Int.le_of_lt hlt
      · exact Int.le_trans (Int.le_of_lt hlt) (hd e he)
    · rename_i hge
      refine List.pairwise_cons.2 ⟨?_, ih hrest⟩
      intro e he
      rcases mem_enqueue.1 he with rfl | he
      · exact Int.not_lt.1 hge
      · exact hd e he

theorem mem_takeWhile_hasCome {due : Due} {queue : List Due}
    (h : queue.Pairwise fun d e => d.deadline.utcUs ≤ e.deadline.utcUs) (hmem : due ∈ queue)
    (hcome : hasCome due.deadline now) :
    due ∈ queue.takeWhile fun d => hasCome d.deadline now := by
  induction queue with
  | nil => cases hmem
  | cons d rest ih =>
    obtain ⟨hd, hrest⟩ := List.pairwise_cons.1 h
    rcases List.mem_cons.1 hmem with rfl | hmem
    · simp [hcome]
    · -- all before it are no later
      have hfirst : hasCome d.deadline now := by
        have := hd due hmem
        simp only [hasCome, decide_eq_true_eq] at *
        omega
      simp only [List.takeWhile_cons, hfirst, if_true]
      exact List.mem_cons_of_mem _ (ih hrest hmem)

/-! ## Dropping is complete -/

/-- A deadline that has come is gone with its record. -/
theorem revision_ne_of_mem_come {come : List Due} {records : Table Text Record} {due : Due}
    {r : Record} (hmem : due ∈ come) (h : (come.foldl drop records).get? due.key = some r) :
    r.revision ≠ due.revision := by
  obtain ⟨before, after, rfl⟩ := List.append_of_mem hmem
  rw [List.foldl_append, List.foldl_cons] at h
  have hafter := get?_of_get?_foldl_drop h
  generalize before.foldl drop records = t at hafter
  intro hrev
  unfold drop at hafter
  split at hafter
  · rename_i r' hr'
    split at hafter
    · simp [Table.get?_erase] at hafter
    · rename_i hne
      rw [hr'] at hafter
      cases hafter
      exact hne hrev
  · rename_i hnone
    rw [hnone] at hafter
    cases hafter

theorem Tidy.isDead_of_get?_purge {r : Record} (h : s.Tidy)
    (hr : (s.purge now).records.get? key = some r) : isDead r now = false := by
  by_contra hdead
  have hr' : s.records.get? key = some r := get?_of_get?_foldl_drop hr
  unfold isDead at hdead
  split at hdead
  · rename_i d hd
    have hmem := mem_takeWhile_hasCome h.sorted (h.dated hr' hd) (by simpa using hdead)
    exact revision_ne_of_mem_come hmem hr rfl
  · exact hdead rfl

theorem Tidy.live_purge (h : s.Tidy) :
    ((s.purge now).live key now).1 = (s.purge now).records.get? key := by
  unfold MemoryStore.live
  split
  · rename_i hr
    exact hr.symm
  · rename_i r hr
    simp [h.isDead_of_get?_purge hr, hr]

theorem drop_sublist (records : Table Text Record) (due : Due) :
    (drop records due).Sublist records := by
  unfold drop
  repeat' split
  · exact List.filter_sublist
  · exact List.Sublist.refl _
  · exact List.Sublist.refl _

theorem foldl_drop_sublist (come : List Due) (records : Table Text Record) :
    (come.foldl drop records).Sublist records := by
  induction come generalizing records with
  | nil => exact List.Sublist.refl _
  | cons due rest ih => exact (ih _).trans (drop_sublist records due)

/-- To lose records does no harm. -/
theorem Tidy.lose {records : Table Text Record} (h : s.Tidy) (hsub : records.Sublist s.records) :
    Tidy { s with records } := by
  have hget : ∀ {k r}, records.get? k = some r → s.records.get? k = some r := fun hr =>
    Table.get?_of_mem h.distinct (hsub.subset (Table.mem_of_get? hr))
  exact {
    numbered := fun hr => h.numbered (hget hr)
    queued := h.queued
    owned := fun hdue hr => h.owned hdue (hget hr)
    sorted := h.sorted
    dated := fun hr => h.dated (hget hr)
    distinct := h.distinct.sublist (hsub.map _) }

theorem Tidy.purge (h : s.Tidy) (now : Instant) : (s.purge now).Tidy where
  toValid := h.shed h.sheds_purge (Int.le_refl _) List.mem_of_mem_drop
  sorted := h.sorted.sublist (List.drop_sublist _ _)
  dated {key r d} hr hd := by
    have hmem := h.dated (get?_of_get?_foldl_drop hr) hd
    have hsplit := List.prefix_iff_eq_append.1
      (List.takeWhile_prefix (fun d : Due => hasCome d.deadline now) (l := s.queue))
    rw [← hsplit] at hmem
    rcases List.mem_append.1 hmem with hcome | hrest
    · exact absurd rfl (revision_ne_of_mem_come hcome hr)
    · exact hrest
  distinct := h.distinct.sublist ((foldl_drop_sublist _ _).map _)

theorem Tidy.live (h : s.Tidy) : (s.live key now).2.Tidy := by
  unfold MemoryStore.live
  split
  · exact h
  · split
    · exact h.lose List.filter_sublist
    · exact h

/-- A store with a record of the next revision whose deadline is in the queue. -/
theorem Tidy.record {value : Bytes} {deadline : Option Instant} {queue : List Due} (h : s.Tidy)
    (hsorted : queue.Pairwise fun d e => d.deadline.utcUs ≤ e.deadline.utcUs)
    (hqueue : ∀ {due}, due ∈ queue ↔ due ∈ s.queue ∨
      due.key = key ∧ due.revision = s.revision + 1 ∧ deadline = some due.deadline) :
    Tidy ⟨s.records.put key ⟨value, s.revision + 1, deadline⟩, s.revision + 1, queue⟩ where
  toValid := h.toValid.record hqueue.1
  sorted := hsorted
  dated {k r d} hr hd := by
    rw [Table.get?_put] at hr
    split at hr
    · rename_i hk
      cases hr
      exact hqueue.2 (.inr ⟨hk.symm, rfl, hd⟩)
    · exact hqueue.2 (.inl (h.dated hr hd))
  distinct := Table.nodup_put h.distinct

/-! ## Dropping is invisible -/

theorem Sheds.trans {t u : MemoryStore} (h : Sheds now s t) (h' : Sheds now t u) :
    Sheds now s u := by
  intro k
  rcases h' k with hsame | ⟨hnone, r, hr, hdead⟩
  · exact hsame ▸ h k
  · refine .inr ⟨hnone, ?_⟩
    rcases h k with hsame | ⟨hgone, -⟩
    · exact ⟨r, hsame ▸ hr, hdead⟩
    · rw [hgone] at hr
      cases hr

theorem Sheds.later {t : MemoryStore} (h : Sheds now s t) (hle : now.utcUs ≤ now'.utcUs) :
    Sheds now' s t := by
  intro k
  rcases h k with hsame | ⟨hnone, r, hr, hdead⟩
  · exact .inl hsame
  · exact .inr ⟨hnone, r, hr, isDead_of_le hdead hle⟩

end MemoryStore

/-- The archive as a store in memory with nothing to drop. -/
def Archive.undropped (a : Archive) : MemoryStore := ⟨a.records, a.revision, []⟩

namespace MemoryStore

variable {s : MemoryStore} {a : Archive} {now now' : Instant} {key k : Text}

/-- A store that has lost no more than what is dead in the archive. -/
structure Follows (now : Instant) (a : Archive) (s : MemoryStore) : Prop where
  tidy : s.Tidy
  sheds : Sheds now a.undropped s
  revision : s.revision = a.revision
  distinct : (a.records.map Prod.fst).Nodup

/-- Two replies that are the same, and stores that still are alike. -/
def Agree {α : Type} (now : Instant) (x : α × Archive) (y : α × MemoryStore) : Prop :=
  y.1 = x.1 ∧ Follows now x.2 y.2

namespace Follows

theorem start (now : Instant) : Follows now default default where
  tidy := tidy_default
  sheds _ := .inl rfl
  revision := rfl
  distinct := List.nodup_nil

theorem wait (h : Follows now a s) (hle : now.utcUs ≤ now'.utcUs) : Follows now' a s :=
  { h with sheds := h.sheds.later hle }

theorem live_eq (h : Follows now a s) (key : Text) : (s.live key now).1 = a.live? key now := by
  have hlive : (s.live key now).1 = (s.records.get? key).filter fun r => !isDead r now := by
    unfold MemoryStore.live
    cases s.records.get? key with
    | none => rfl
    | some r => cases hdead : isDead r now <;> simp [Option.filter, hdead]
  rw [hlive, Archive.live?]
  rcases h.sheds key with hsame | ⟨hnone, r, hr, hdead⟩
  · rw [hsame]
    rfl
  · have hr' : a.records.get? key = some r := hr
    simp [hnone, hr', Option.filter, hdead]

theorem live (h : Follows now a s) (key : Text) : Follows now a (s.live key now).2 where
  tidy := h.tidy.live
  sheds := h.sheds.trans sheds_live
  revision := revision_live.trans h.revision
  distinct := h.distinct

theorem purge (h : Follows now a s) : Follows now a (s.purge now) where
  tidy := h.tidy.purge now
  sheds := h.sheds.trans h.tidy.sheds_purge
  revision := h.revision
  distinct := h.distinct

theorem erase (h : Follows now a s) (key : Text) :
    Follows now (a.erase key) { s with records := s.records.erase key } where
  tidy := h.tidy.lose List.filter_sublist
  sheds k := by
    simp only [Archive.undropped, Archive.erase, Table.get?_erase]
    split
    · exact .inl rfl
    · exact h.sheds k
  revision := h.revision
  distinct := Table.nodup_erase h.distinct

/-- Both use up a revision. -/
theorem count (h : Follows now a s) :
    Follows now ⟨a.records, a.revision + 1⟩ { s with revision := s.revision + 1 } where
  tidy :=
    have hsame : Sheds now s { s with revision := s.revision + 1 } := fun _ => .inl rfl
    { h.tidy with toValid := h.tidy.shed hsame (Int.le_of_lt (Int.lt_succ _)) id }
  sheds := h.sheds
  revision := congrArg (· + 1) h.revision
  distinct := h.distinct

theorem record {value : Bytes} {deadline : Option Instant} {queue : List Due}
    (h : Follows now a s)
    (htidy : Tidy ⟨s.records.put key ⟨value, s.revision + 1, deadline⟩, s.revision + 1, queue⟩) :
    Follows now ⟨a.records.put key ⟨value, a.revision + 1, deadline⟩, a.revision + 1⟩
      ⟨s.records.put key ⟨value, s.revision + 1, deadline⟩, s.revision + 1, queue⟩ where
  tidy := htidy
  sheds k := by
    simp only [Archive.undropped, Table.get?_put, h.revision]
    split
    · exact .inl rfl
    · exact h.sheds k
  revision := congrArg (· + 1) h.revision
  distinct := Table.nodup_put h.distinct

theorem write (h : Follows now a s) (key : Text) (value : Bytes) (ttl : Option Duration) :
    Agree now (a.write key value ttl now) (s.write key value ttl now) := by
  have hp : Follows now a (s.purge now) := h.purge
  unfold MemoryStore.write Archive.write
  generalize s.purge now = p at hp
  dsimp only
  cases hd : deadline ttl now with
  | error e => exact ⟨rfl, hp.count⟩
  | ok d =>
    cases d with
    | none =>
      refine ⟨by simp [hp.revision], hp.record (hp.tidy.record hp.tidy.sorted ?_)⟩
      simp
    | some d =>
      refine ⟨by simp [hp.revision], hp.record (hp.tidy.record (sorted_enqueue hp.tidy.sorted) ?_)⟩
      rintro ⟨d', n, k⟩
      rw [mem_enqueue, or_comm, Due.mk.injEq]
      constructor
      · rintro (hold | ⟨rfl, rfl, rfl⟩)
        · exact .inl hold
        · exact .inr ⟨rfl, rfl, rfl⟩
      · rintro (hold | ⟨rfl, rfl, ⟨⟩⟩)
        · exact .inl hold
        · exact .inr ⟨rfl, rfl, rfl⟩

/-- A call whose reply is decided by what is live under its key. -/
theorem perform (h : Follows now a s) (call : StoreCall) :
    Agree now (Store.perform now call a) (Store.perform now call s) := by
  have hlive := h.live call.key
  have heq := h.live_eq call.key
  cases call with
  | put key value ttl =>
    simp only [Store.perform, StoreCall.key, put] at *
    cases StoreKey.check key with
    | error e => exact ⟨rfl, h⟩
    | ok => exact h.write key value ttl
  | get key =>
    simp only [Store.perform, StoreCall.key, get] at *
    cases StoreKey.check key with
    | error e => exact ⟨rfl, h⟩
    | ok => exact ⟨by rw [heq]; rfl, hlive⟩
  | delete key expected =>
    simp only [Store.perform, StoreCall.key, delete] at *
    cases StoreKey.check key with
    | error e => exact ⟨rfl, h⟩
    | ok =>
      cases expected with
      | none => exact ⟨rfl, hlive.erase key⟩
      | some n =>
        simp only [Archive.answer, heq]
        split
        · exact ⟨rfl, hlive.erase key⟩
        · exact ⟨rfl, hlive⟩
  | update key value expected ttl =>
    simp only [Store.perform, StoreCall.key, update] at *
    cases StoreKey.check key with
    | error e => exact ⟨rfl, h⟩
    | ok =>
      simp only [Archive.answer, heq]
      split
      · exact hlive.write key value ttl
      · exact ⟨rfl, hlive⟩

/-- After a purge the keys are those under which the archive finds something. -/
theorem mem_keys_purge (h : Follows now a s) :
    k ∈ (s.purge now).records.map Prod.fst ↔
      k ∈ a.records.map Prod.fst ∧ (a.live? k now).isSome := by
  have heq : a.live? k now = (s.purge now).records.get? k := by
    rw [← h.purge.live_eq, h.tidy.live_purge]
  rw [← Table.isSome_get?_iff, ← heq]
  constructor
  · intro hsome
    refine ⟨?_, hsome⟩
    rw [← Table.isSome_get?_iff]
    exact Option.isSome_of_isSome_filter _ _ hsome
  · exact And.right

theorem size_eq (h : Follows now a s) : (s.size now).1 = a.size now := by
  have hperm : ((s.purge now).records.map Prod.fst).Perm
      ((a.records.map Prod.fst).filter fun k => (a.live? k now).isSome) :=
    (List.perm_ext_iff_of_nodup (h.tidy.purge now).distinct (h.distinct.filter _)).2 fun k => by
      rw [List.mem_filter, h.mem_keys_purge]
  have hlength := hperm.length_eq
  rw [List.length_map, List.filter_map, List.length_map, ← List.countP_eq_length_filter] at hlength
  exact hlength

theorem ask (h : Follows now a s) (q : Inquiry) : Agree now (q.ask now a) (q.ask now s) := by
  cases q with
  | call c => exact h.perform c
  | size => exact ⟨h.size_eq, h.purge⟩

variable {asked : List (Instant × Inquiry)}

theorem replies_eq (h : Follows now a s) (hlater : ∀ x ∈ asked, now.utcUs ≤ x.1.utcUs)
    (hclock : asked.Pairwise fun x y => x.1.utcUs ≤ y.1.utcUs) :
    Inquiry.replies asked s = Inquiry.replies asked a := by
  induction asked generalizing now s a with
  | nil => rfl
  | cons x rest ih =>
    obtain ⟨now', q⟩ := x
    obtain ⟨hfirst, hrest⟩ := List.pairwise_cons.1 hclock
    have hnow : Follows now' a s := h.wait (hlater _ List.mem_cons_self)
    obtain ⟨hreply, hleft⟩ := hnow.ask q
    simp only [Inquiry.replies, hreply]
    rw [ih hleft hfirst hrest]

end Follows

/-- A store is alike to the archive of its own records. -/
theorem Tidy.follows (h : s.Tidy) (now : Instant) : Follows now ⟨s.records, s.revision⟩ s where
  tidy := h
  sheds _ := .inl rfl
  revision := rfl
  distinct := h.distinct

theorem Tidy.left (h : s.Tidy) (asked : List (Instant × Inquiry)) :
    (Inquiry.left asked s).Tidy := by
  induction asked generalizing s with
  | nil => exact h
  | cons x rest ih => exact ih ((h.follows x.1).ask x.2).2.tidy

/-! ## A write leaves nothing dead -/

theorem Tidy.lt_of_mem_write {value : Bytes} {ttl : Option Duration} (h : s.Tidy)
    (hok : (s.write key value ttl now).1.isOk) :
    ∀ row ∈ (s.write key value ttl now).2.records, ∀ d ∈ row.2.deadline, now.utcUs < d.utcUs := by
  have hpurged : ∀ row ∈ (s.purge now).records, ∀ d ∈ row.2.deadline, now.utcUs < d.utcUs := by
    intro row hrow d hd
    have hlive := h.isDead_of_get?_purge (Table.get?_of_mem (h.purge now).distinct hrow)
    simpa [isDead, Option.mem_def.1 hd, hasCome] using hlive
  unfold MemoryStore.write at hok ⊢
  generalize s.purge now = p at hpurged
  have hput : ∀ {n : Revision} {deadline : Option Instant}, (∀ d ∈ deadline, now.utcUs < d.utcUs) →
      ∀ row ∈ p.records.put key ⟨value, n, deadline⟩, ∀ d ∈ row.2.deadline, now.utcUs < d.utcUs := by
    intro n deadline hnew row hrow
    rcases Table.mem_put hrow with rfl | hold
    · exact hnew
    · exact hpurged row hold
  dsimp only at hok ⊢
  split at hok
  · cases hok
  · exact hput (by simp)
  · exact hput (lt_of_deadline ‹_›)

theorem Tidy.lt_of_mem_perform {call : StoreCall} (h : s.Tidy) (hwrite : call.isWrite)
    (hok : (Store.perform now call s).1.isOk) :
    ∀ row ∈ (Store.perform now call s).2.records, ∀ d ∈ row.2.deadline,
      now.utcUs < d.utcUs := by
  cases call with
  | get | delete => cases hwrite
  | put key value ttl =>
    simp only [Store.perform, put] at hok ⊢
    split at hok
    · cases hok
    · exact h.lt_of_mem_write hok
  | update key value expected ttl =>
    simp only [Store.perform, update] at hok ⊢
    split at hok
    · cases hok
    · split at hok
      · rename_i hrevision
        rw [if_pos hrevision]
        exact h.live.lt_of_mem_write hok
      · cases hok

/-- **Dropping is invisible and complete.** While the clock does not go back, a new store answers
as an archive, and no record outlives its deadline in it beyond the next write that succeeds. -/
theorem dropping_invisible_and_complete (asked : List (Instant × Inquiry))
    (hclock : asked.Pairwise fun x y => x.1.utcUs ≤ y.1.utcUs) :
    Inquiry.replies asked (default : MemoryStore) = Inquiry.replies asked (default : Archive) ∧
      ∀ before now call after, asked = before ++ (now, .call call) :: after → call.isWrite →
        (Store.perform now call (Inquiry.left before (default : MemoryStore))).1.isOk →
        ∀ row ∈ (Store.perform now call (Inquiry.left before (default : MemoryStore))).2.records,
          ∀ d ∈ row.2.deadline, now.utcUs < d.utcUs := by
  constructor
  · cases asked with
    | nil => rfl
    | cons x rest =>
      have hfirst := (List.pairwise_cons.1 hclock).1
      refine (Follows.start x.1).replies_eq ?_ hclock
      intro y hy
      rcases List.mem_cons.1 hy with rfl | hy
      · exact Int.le_refl _
      · exact hfirst y hy
  · intro before now call after _ hwrite hok
    exact (tidy_default.left before).lt_of_mem_perform hwrite hok

/-- Three keys with a time to live: one is renewed in time, one is written again without a time to
live, one is deleted and written again with a shorter one. That one has ended when the last write
comes, which looks at none of the three. -/
def rewritten : List (Instant × Inquiry) :=
  let t (us : Nat) (h : us < calendarUs) : Instant := ⟨us, some .utc, h⟩
  let three : Option Duration := some ⟨3000, by decide⟩
  [(default, .call (.put "renewed" [1] three)), (default, .call (.put "kept" [2] three)),
    (default, .call (.put "again" [3] three)),
    (t 700 (by decide), .call (.update "renewed" [4] 1 (some ⟨5000, by decide⟩))),
    (t 700 (by decide), .call (.put "kept" [5] none)),
    (t 700 (by decide), .call (.delete "again" none)),
    (t 700 (by decide), .call (.put "again" [6] (some ⟨2000, by decide⟩))),
    (t 2699 (by decide), .size), (t 3300 (by decide), .call (.put "last" [7] none)),
    (t 3300 (by decide), .call (.get "again")), (t 5699 (by decide), .size)]

/-- The archive keeps four records to the end, the store three, and both count alike. -/
theorem dropping_invisible_and_complete_rewritten :
    (Inquiry.replies rewritten (default : MemoryStore) =
        Inquiry.replies rewritten (default : Archive) ∧
      ∀ before now call after, rewritten = before ++ (now, .call call) :: after → call.isWrite →
        (Store.perform now call (Inquiry.left before (default : MemoryStore))).1.isOk →
        ∀ row ∈ (Store.perform now call (Inquiry.left before (default : MemoryStore))).2.records,
          ∀ d ∈ row.2.deadline, now.utcUs < d.utcUs) ∧
    (Inquiry.left rewritten (default : Archive)).records.length = 4 ∧
    (Inquiry.left rewritten (default : MemoryStore)).records.length = 3 :=
  ⟨dropping_invisible_and_complete rewritten (by decide), by decide +kernel, by decide +kernel⟩

end MemoryStore

end SlidingCache
