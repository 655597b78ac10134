import SlidingCache.Proofs.Store.Lawful
import SlidingCache.Proofs.Time.Instant
import SlidingCache.Store.Memory

/-!
# The store in memory keeps its promises

Dropping records is never seen. A record with the revision of a queued deadline has that deadline
(`MemoryStore.Valid`), so a deadline that has come only drops a record that is dead by then
(`MemoryStore.Valid.sheds_purge`), and the queue decides no more than how soon a dead record is gone.
-/

namespace SlidingCache

/-- What a record shows of itself. -/
def Record.slot (r : Record) : Slot := ⟨r.value, r.revision, r.deadline.map Instant.utcUs⟩

namespace MemoryStore

open StoreCall (deadlineOf)

variable {s : MemoryStore} {now now' : Instant} {key k : Text}

/-- What is live under a key. -/
def slot? (s : MemoryStore) (now : Instant) : View :=
  fun key => ((s.records.get? key).filter fun r => !isDead r now).map Record.slot

structure Valid (s : MemoryStore) : Prop where
  numbered : ∀ {key r}, s.records.get? key = some r → r.revision ≤ s.revision
  queued : ∀ {due}, due ∈ s.queue → due.revision ≤ s.revision
  owned : ∀ {due r}, due ∈ s.queue → s.records.get? due.key = some r →
    r.revision = due.revision → r.deadline = some due.deadline

theorem valid_default : Valid default where
  numbered h := by cases h
  queued h := by cases h
  owned h := by cases h

theorem slot?_of_get?_eq_none (h : s.records.get? key = none) : s.slot? now key = none := by
  simp [slot?, h]

theorem slot?_of_get? {r : Record} (h : s.records.get? key = some r) :
    s.slot? now key = if isDead r now then none else some r.slot := by
  cases hd : isDead r now <;> simp [slot?, h, Option.filter, hd]

theorem exists_of_slot? {x : Slot} (h : s.slot? now key = some x) :
    ∃ r, s.records.get? key = some r ∧ isDead r now = false ∧ r.slot = x := by
  cases hr : s.records.get? key with
  | none => rw [slot?_of_get?_eq_none hr] at h; cases h
  | some r =>
    rw [slot?_of_get? hr] at h
    cases hd : isDead r now with
    | true => simp [hd] at h
    | false => exact ⟨r, rfl, hd, by simpa [hd] using h⟩

/-- What is seen has time to live left. -/
theorem lt_deadline_of_slot? {x : Slot} (h : s.slot? now key = some x) :
    ∀ us ∈ x.deadline, now.utcUs < us := by
  obtain ⟨r, -, halive, rfl⟩ := exists_of_slot? h
  intro us hus
  obtain ⟨d, hd, rfl⟩ := Option.map_eq_some_iff.1 hus
  simp only [isDead, hd, hasCome, decide_eq_false_iff_not, Int.not_le] at halive
  exact halive

theorem exists_deadline_of_isDead {r : Record} (h : isDead r now) :
    ∃ d, r.slot.deadline = some d ∧ d ≤ now.utcUs := by
  simp only [isDead] at h
  split at h
  · rename_i d hd
    exact ⟨d.utcUs, by simp [Record.slot, hd], by simpa [hasCome] using h⟩
  · cases h

theorem isDead_of_le {r : Record} (h : isDead r now) (hle : now.utcUs ≤ now'.utcUs) :
    isDead r now' := by
  simp only [isDead] at *
  split at h
  · simp only [hasCome, decide_eq_true_eq] at *
    omega
  · cases h

theorem slot?_later (hle : now.utcUs ≤ now'.utcUs) :
    s.slot? now' key = s.slot? now key ∨
      s.slot? now' key = none ∧
        ∃ x d, s.slot? now key = some x ∧ x.deadline = some d ∧ d ≤ now'.utcUs := by
  cases hr : s.records.get? key with
  | none => simp [slot?_of_get?_eq_none hr]
  | some r =>
    simp only [slot?_of_get? hr]
    cases hnow : isDead r now with
    | true => simp [isDead_of_le hnow hle]
    | false =>
      cases hlater : isDead r now' with
      | true =>
        obtain ⟨d, hd, hdle⟩ := exists_deadline_of_isDead hlater
        exact .inr ⟨by simp, r.slot, d, by simp, hd, hdle⟩
      | false => simp

/-! ## Dropping -/

/-- What is left of a store when some of its dead records are gone. -/
def Sheds (now : Instant) (s t : MemoryStore) : Prop :=
  ∀ k, t.records.get? k = s.records.get? k ∨
    t.records.get? k = none ∧ ∃ r, s.records.get? k = some r ∧ isDead r now

theorem Sheds.slot? {t : MemoryStore} (h : Sheds now s t) : t.slot? now = s.slot? now := by
  funext k
  rcases h k with hsame | ⟨hnone, r, hr, hd⟩
  · simp only [MemoryStore.slot?, hsame]
  · rw [slot?_of_get?_eq_none hnone, slot?_of_get? hr, if_pos hd]

theorem Sheds.get? {t : MemoryStore} {r : Record} (h : Sheds now s t)
    (hr : t.records.get? k = some r) : s.records.get? k = some r := by
  rcases h k with hsame | ⟨hnone, -⟩
  · exact hsame ▸ hr
  · rw [hnone] at hr; cases hr

/-- To drop records and queued deadlines and to use up revisions does no harm. -/
theorem Valid.shed {t : MemoryStore} (h : s.Valid) (hs : Sheds now s t)
    (hrev : s.revision ≤ t.revision) (hqueue : ∀ {due}, due ∈ t.queue → due ∈ s.queue) :
    t.Valid where
  numbered hr := Int.le_trans (h.numbered (hs.get? hr)) hrev
  queued hdue := Int.le_trans (h.queued (hqueue hdue)) hrev
  owned hdue hr := h.owned (hqueue hdue) (hs.get? hr)

theorem get?_drop (records : Table Text Record) (due : Due) (k : Text) :
    (drop records due).get? k = records.get? k ∨
      (drop records due).get? k = none ∧ due.key = k ∧
        ∃ r, records.get? k = some r ∧ r.revision = due.revision := by
  unfold drop
  split
  · rename_i r hr
    split
    · rename_i hrev
      rw [Table.get?_erase]
      split
      · rename_i hk
        exact .inr ⟨rfl, hk, r, hk ▸ hr, hrev⟩
      · exact .inl rfl
    · exact .inl rfl
  · exact .inl rfl

theorem get?_foldl_drop (come : List Due) (records : Table Text Record) (k : Text) :
    (come.foldl drop records).get? k = records.get? k ∨
      (come.foldl drop records).get? k = none ∧
        ∃ due ∈ come, due.key = k ∧ ∃ r, records.get? k = some r ∧ r.revision = due.revision := by
  induction come generalizing records with
  | nil => exact .inl rfl
  | cons due rest ih =>
    rw [List.foldl_cons]
    rcases ih (drop records due) with hrest | ⟨hnone, due', hmem, hkey, r, hr, hrev⟩
    · rcases get?_drop records due k with hdue | ⟨hnone, hkey, hr⟩
      · exact .inl (hrest.trans hdue)
      · exact .inr ⟨hrest.trans hnone, due, by simp, hkey, hr⟩
    · refine .inr ⟨hnone, ?_⟩
      rcases get?_drop records due k with hdue | ⟨hgone, _⟩
      · exact ⟨due', List.mem_cons_of_mem _ hmem, hkey, r, hdue ▸ hr, hrev⟩
      · rw [hgone] at hr; cases hr

theorem get?_of_get?_foldl_drop {come : List Due} {records : Table Text Record} {r : Record}
    (h : (come.foldl drop records).get? k = some r) : records.get? k = some r := by
  rcases get?_foldl_drop come records k with hsame | ⟨hnone, -⟩
  · exact hsame ▸ h
  · rw [hnone] at h
    cases h

theorem Valid.sheds_purge (h : s.Valid) : Sheds now s (s.purge now) := by
  intro k
  have hcome := List.all_eq_true.1
    (List.all_takeWhile (p := fun d : Due => hasCome d.deadline now) (l := s.queue))
  rcases get?_foldl_drop (s.queue.takeWhile fun d => hasCome d.deadline now) s.records k with
    hsame | ⟨hnone, due, hmem, rfl, r, hr, hrev⟩
  · exact .inl hsame
  · refine .inr ⟨hnone, r, hr, ?_⟩
    have hdeadline := h.owned (List.takeWhile_subset _ hmem) hr hrev
    simpa [isDead, hdeadline] using hcome due hmem

theorem sheds_live : Sheds now s (s.live key now).2 := by
  intro k
  simp only [live]
  split
  · exact .inl rfl
  · rename_i r hr
    split
    · rename_i hd
      simp only [Table.get?_erase]
      split
      · rename_i hk
        exact .inr ⟨rfl, r, hk ▸ hr, hd⟩
      · exact .inl rfl
    · exact .inl rfl

@[simp] theorem live_fst : (s.live key now).1.map Record.slot = s.slot? now key := by
  simp only [live]
  split
  · rename_i hr; simp [slot?_of_get?_eq_none hr]
  · rename_i r hr
    rw [slot?_of_get? hr]
    split <;> rfl

@[simp] theorem revision_live : (s.live key now).2.revision = s.revision := by
  simp only [live]
  repeat' split
  all_goals rfl

theorem queue_live : (s.live key now).2.queue = s.queue := by
  simp only [live]
  repeat' split
  all_goals rfl

theorem Valid.live (h : s.Valid) : (s.live key now).2.Valid :=
  h.shed sheds_live (by simp) fun hdue => queue_live (s := s) ▸ hdue

theorem Valid.erase (h : s.Valid) : Valid { s with records := s.records.erase key } where
  numbered {k r} hr := by
    rw [Table.get?_erase] at hr
    split at hr
    · cases hr
    · exact h.numbered hr
  queued hdue := h.queued hdue
  owned {due r} hdue hr := by
    rw [Table.get?_erase] at hr
    split at hr
    · cases hr
    · exact h.owned hdue hr

theorem slot?_erase :
    MemoryStore.slot? { s with records := s.records.erase key } now
      = (s.slot? now).set key none := by
  funext k
  by_cases hk : k = key
  · subst hk; simp [slot?, Table.get?_erase]
  · simp [slot?, Table.get?_erase, View.set_of_ne hk, Ne.symm hk]

/-! ## Writing -/

theorem mem_enqueue {due d : Due} {queue : List Due} :
    d ∈ enqueue due queue ↔ d = due ∨ d ∈ queue := by
  induction queue with
  | nil => simp [enqueue]
  | cons e rest ih =>
    simp only [enqueue]
    split
    · simp
    · simp only [List.mem_cons, ih]
      constructor
      · rintro (h | h | h) <;> simp [h]
      · rintro (h | h | h) <;> simp [h]

theorem deadline_some {ttl : Duration} (hpos : ttl.isPositive) :
    deadline (some ttl) now = (do
      let d ← (Duration.ofMilliseconds ttl.milliseconds).mapError .time
      return some (← (now.add d).mapError .time)) := by
  have hone : ttl.milliseconds ≠ 0 := Nat.ne_of_gt (Duration.one_le_milliseconds hpos)
  simp only [deadline, ttlMilliseconds, hpos, if_true]
  rw [Chain.ok_bind]
  split
  · rename_i h; cases h
  · rename_i h; exact absurd (Option.some.inj h) hone
  · rename_i h; cases h; rfl

theorem deadline_eq_ok {ttl : Option Duration} {d : Option Instant}
    (h : deadline ttl now = .ok d) :
    (∀ t ∈ ttl, t.isPositive) ∧ d.map Instant.utcUs = deadlineOf ttl now := by
  cases ttl with
  | none => cases h; simp [deadlineOf]
  | some ttl =>
    cases hpos : ttl.isPositive with
    | false => simp [deadline, ttlMilliseconds, hpos, bind, Except.bind] at h
    | true =>
      rw [deadline_some hpos] at h
      obtain ⟨length, hlength, h⟩ := Chain.bind_eq_ok.1 h
      obtain ⟨i, hi, ⟨⟩⟩ := Chain.bind_eq_ok.1 h
      have hus := Duration.us_of_ofMilliseconds (Chain.mapError_eq_ok.1 hlength)
      have hadd := Instant.utcUs_add (Chain.mapError_eq_ok.1 hi)
      refine ⟨fun t ht => by cases ht; exact hpos, ?_⟩
      simp [deadlineOf, hadd, hus]

/-- A deadline lies ahead. -/
theorem lt_of_deadline {ttl : Option Duration} {d : Option Instant}
    (h : deadline ttl now = .ok d) : ∀ i ∈ d, now.utcUs < i.utcUs := by
  rintro i ⟨⟩
  obtain ⟨hpos, hd⟩ := deadline_eq_ok h
  cases ttl with
  | none => cases hd
  | some ttl =>
    have hone := Duration.one_le_milliseconds (hpos ttl rfl)
    simp only [deadlineOf, Option.map_some, Option.some.injEq] at hd
    omega

theorem refusal_of_deadline {call : StoreCall} {view : View} {e : StoreFault}
    (h : deadline call.ttl? now = .error e) : Refusal now view call e := by
  cases httl : call.ttl? with
  | none => rw [httl] at h; cases h
  | some ttl =>
    rw [httl] at h
    cases hpos : ttl.isPositive with
    | false =>
      have he : StoreFault.ttlNotPositive ttl = e := by
        simpa [deadline, ttlMilliseconds, hpos, bind, Except.bind] using h
      exact he ▸ .ttlNotPositive httl hpos
    | true =>
      rw [deadline_some hpos] at h
      have hreading := now.inCalendar
      have hone := Duration.one_le_milliseconds hpos
      rcases Chain.bind_eq_error.1 h with h | ⟨length, hlength, h⟩
      · obtain ⟨fault, hfault, rfl⟩ := Chain.mapError_eq_error.1 h
        have := Duration.not_inRange_of_ofMilliseconds hfault
        exact .time httl hpos (by simp only [calendarUs]; omega)
      · have hus := Duration.us_of_ofMilliseconds (Chain.mapError_eq_ok.1 hlength)
        cases hadd : now.add length with
        | ok i => rw [hadd] at h; cases h
        | error fault =>
          rw [hadd] at h
          obtain rfl : StoreFault.time fault = e := Except.error.inj h
          refine .time httl hpos ?_
          rcases Instant.add_eq_error hadd with hlow | hhigh
          · omega
          · omega

/-- A store with a record of the next revision. -/
theorem Valid.record {value : Bytes} {deadline : Option Instant} {queue : List Due} (h : s.Valid)
    (hqueue : ∀ {due}, due ∈ queue → due ∈ s.queue ∨
      due.key = key ∧ due.revision = s.revision + 1 ∧ deadline = some due.deadline) :
    Valid ⟨s.records.put key ⟨value, s.revision + 1, deadline⟩, s.revision + 1, queue⟩ where
  numbered {k r} hr := by
    rw [Table.get?_put] at hr
    split at hr
    · cases hr; exact Int.le_refl _
    · exact Int.le_trans (h.numbered hr) (Int.le_of_lt (Int.lt_succ _))
  queued {due} hdue := by
    rcases hqueue hdue with hold | ⟨-, hrev, -⟩
    · exact Int.le_trans (h.queued hold) (Int.le_of_lt (Int.lt_succ _))
    · exact Int.le_of_eq hrev
  owned {due r} hdue hr hrev := by
    rw [Table.get?_put] at hr
    rcases hqueue hdue with hold | ⟨hkey, -, hdeadline⟩
    · split at hr
      · -- a deadline of an earlier write does not have the new revision
        cases hr
        exact absurd (hrev ▸ h.queued hold) (Int.not_le.2 (Int.lt_succ _))
      · exact h.owned hold hr hrev
    · rw [if_pos hkey.symm] at hr
      cases hr
      exact hdeadline

theorem slot?_record {value : Bytes} {n : Revision} {deadline : Option Instant} {queue : List Due}
    (hlive : ∀ d ∈ deadline, now.utcUs < d.utcUs) :
    slot? ⟨s.records.put key ⟨value, n, deadline⟩, n, queue⟩ now
      = (s.slot? now).set key (some ⟨value, n, deadline.map Instant.utcUs⟩) := by
  have hd : isDead ⟨value, n, deadline⟩ now = false := by
    cases deadline with
    | none => rfl
    | some d =>
      have := hlive d rfl
      simp [isDead, hasCome]
      omega
  funext k
  by_cases hk : k = key
  · subst hk
    rw [View.set_self, slot?_of_get? (by simp [Table.get?_put]; rfl), hd]
    rfl
  · simp [slot?, Table.get?_put, View.set_of_ne hk, Ne.symm hk]

/-- What a write does once its key and its revision are accepted. -/
inductive Written (s : MemoryStore) (now : Instant) (key : Text) (value : Bytes)
    (ttl : Option Duration) : Except StoreFault Revision × MemoryStore → Prop
  | refused {e t} : deadline ttl now = .error e → t.slot? now = s.slot? now → t.Valid →
    s.revision ≤ t.revision → Written s now key value ttl (.error e, t)
  | done {t} : (∀ d ∈ ttl, d.isPositive) → t.Valid → s.revision < t.revision →
    t.slot? now = (s.slot? now).set key (some ⟨value, t.revision, deadlineOf ttl now⟩) →
    Written s now key value ttl (.ok t.revision, t)

theorem Valid.write (h : s.Valid) (key : Text) (value : Bytes) (ttl : Option Duration)
    (now : Instant) : Written s now key value ttl (s.write key value ttl now) := by
  have hsheds : Sheds now s (s.purge now) := h.sheds_purge
  have hslot := hsheds.slot?
  have hpurged : (s.purge now).Valid :=
    h.shed hsheds (Int.le_refl _) fun hdue => List.mem_of_mem_drop hdue
  have hrevision : (s.purge now).revision = s.revision := rfl
  unfold MemoryStore.write
  generalize s.purge now = p at hsheds hslot hpurged hrevision
  have hle : s.revision ≤ p.revision + 1 := hrevision ▸ Int.le_of_lt (Int.lt_succ _)
  have hlt : s.revision < p.revision + 1 := hrevision ▸ Int.lt_succ _
  dsimp only
  split
  · rename_i e he
    have hsame : Sheds now p { p with revision := p.revision + 1 } := fun k => .inl rfl
    exact .refused he hslot (hpurged.shed hsame (hrevision ▸ hle) id) hle
  · rename_i he
    obtain ⟨hpos, hd⟩ := deadline_eq_ok he
    refine .done hpos (hpurged.record .inl) hlt ?_
    rw [slot?_record (by simp), hslot, ← hd]
  · rename_i d he
    obtain ⟨hpos, hd⟩ := deadline_eq_ok he
    refine .done hpos (hpurged.record fun hdue => ?_) hlt ?_
    · rcases mem_enqueue.1 hdue with rfl | hdue
      · exact .inr ⟨rfl, rfl, rfl⟩
      · exact .inl hdue
    · rw [slot?_record (lt_of_deadline he), hslot, ← hd]

/-! ## The laws -/

theorem slot?_live : (s.live key now).2.slot? now = s.slot? now := sheds_live.slot?

theorem revision_of_live : (s.live key now).1.map Record.revision =
    (s.slot? now key).map Slot.revision := by
  rw [← live_fst, Option.map_map]
  rfl

/-- What the laws demand of a call that gave a reply and a store. -/
def Lawfully (s : MemoryStore) (now : Instant) (call : StoreCall)
    (after : Except StoreFault call.Reply × MemoryStore) : Prop :=
  after.2.Valid ∧
    Performed now (s.slot? now) s.revision call after.1 (after.2.slot? now) after.2.revision

theorem Valid.refused {call : StoreCall} {fault : StoreFault} (h : s.Valid)
    (hr : Refusal now (s.slot? now) call fault) : Lawfully s now call (.error fault, s) :=
  ⟨h, .refused hr (Int.le_refl _)⟩

/-- A call that ends with nothing but the look at its key. -/
theorem Valid.refused_live {call : StoreCall} {fault : StoreFault} (h : s.Valid)
    (hr : Refusal now (s.slot? now) call fault) :
    Lawfully s now call (.error fault, (s.live key now).2) := by
  refine ⟨h.live, ?_⟩
  rw [slot?_live, revision_live]
  exact .refused hr (Int.le_refl _)

theorem Valid.deleted {expected : Option Revision} (h : s.Valid) (hlegal : StoreKey.IsLegal key)
    (hexpected : ∀ n ∈ expected, (s.slot? now key).map Slot.revision = some n) :
    Lawfully s now (.delete key expected)
      (.ok (), { (s.live key now).2 with records := (s.live key now).2.records.erase key }) := by
  refine ⟨h.live.erase, ?_⟩
  rw [slot?_erase, slot?_live]
  exact (revision_live (s := s)).symm ▸ .deleted hlegal hexpected

theorem lawfully_put {value : Bytes} {ttl : Option Duration} (h : s.Valid) :
    Lawfully s now (.put key value ttl) (s.put key value ttl now) := by
  unfold put
  cases hkey : StoreKey.check key with
  | error e => exact h.refused (.invalidKey hkey)
  | ok =>
    have hw := h.write key value ttl now
    dsimp only
    generalize s.write key value ttl now = w at hw
    cases hw with
    | refused he hslot hvalid hle =>
      refine ⟨hvalid, ?_⟩
      rw [hslot]
      exact .refused (refusal_of_deadline he) hle
    | done hpos hvalid hlt hslot =>
      refine ⟨hvalid, ?_⟩
      rw [hslot]
      exact .put (StoreKey.check_eq_ok_iff.1 hkey) hlt hpos

theorem lawfully_get (h : s.Valid) : Lawfully s now (.get key) (s.get key now) := by
  unfold get
  cases hkey : StoreKey.check key with
  | error e => exact h.refused (.invalidKey hkey)
  | ok =>
    have hheld : (s.live key now).1.map (fun r => (⟨r.value, r.revision⟩ : Held))
        = (s.slot? now key).map Slot.held := by
      rw [← live_fst, Option.map_map]
      rfl
    refine ⟨h.live, ?_⟩
    dsimp only
    rw [slot?_live, revision_live, hheld]
    exact .got (StoreKey.check_eq_ok_iff.1 hkey)

theorem lawfully_delete {expected : Option Revision} (h : s.Valid) :
    Lawfully s now (.delete key expected) (s.delete key expected now) := by
  unfold delete
  cases hkey : StoreKey.check key with
  | error e => exact h.refused (.invalidKey hkey)
  | ok =>
    have hlegal := StoreKey.check_eq_ok_iff.1 hkey
    cases expected with
    | none => exact h.deleted hlegal (by simp)
    | some n =>
      dsimp only
      rw [revision_of_live]
      split
      · rename_i hn
        exact h.deleted hlegal (by simpa using hn)
      · rename_i hn
        exact h.refused_live (.conflict rfl hn)

theorem lawfully_update {value : Bytes} {expected : Revision} {ttl : Option Duration}
    (h : s.Valid) :
    Lawfully s now (.update key value expected ttl) (s.update key value expected ttl now) := by
  unfold update
  cases hkey : StoreKey.check key with
  | error e => exact h.refused (.invalidKey hkey)
  | ok =>
    dsimp only
    rw [revision_of_live]
    split
    · rename_i hn
      have hlive : (s.live key now).2.Valid := h.live
      have hw := hlive.write key value ttl now
      generalize (s.live key now).2.write key value ttl now = w at hw
      cases hw with
      | refused he hslot hvalid hle =>
        refine ⟨hvalid, ?_⟩
        rw [hslot, slot?_live]
        exact .refused (refusal_of_deadline he) (revision_live (s := s) ▸ hle)
      | done hpos hvalid hlt hslot =>
        refine ⟨hvalid, ?_⟩
        rw [hslot, slot?_live]
        exact .updated (StoreKey.check_eq_ok_iff.1 hkey) (revision_live (s := s) ▸ hlt) hpos hn
    · rename_i hn
      exact h.refused_live (.conflict rfl hn)

theorem lawful (call : StoreCall) (h : s.Valid) :
    Lawfully s now call (Store.perform now call s) := by
  cases call with
  | put key value ttl => exact lawfully_put h
  | get key => exact lawfully_get h
  | delete key expected => exact lawfully_delete h
  | update key value expected ttl => exact lawfully_update h

instance : LawfulStore MemoryStore where
  Valid := Valid
  lastRevision := revision
  slot? := slot?
  revision_le h hx := by
    obtain ⟨r, hr, -, rfl⟩ := exists_of_slot? hx
    exact h.numbered hr
  later _ _ hle := slot?_later hle
  valid_perform h := (lawful _ h).1
  performed _ _ h := (lawful _ h).2

end MemoryStore

end SlidingCache
