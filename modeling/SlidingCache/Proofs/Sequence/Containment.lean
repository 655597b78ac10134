import SlidingCache.Proofs.Expiration.Exact
import SlidingCache.Proofs.Sequence.KeepAlive
import SlidingCache.Proofs.Shared.Environment

/-!
# Whatever others have stored

Any client of the store may put any octets under a legal key. `Contained` says what a read makes of
what it finds there and what it leaves: a value that cannot be decoded is complained of and left as
it is, one whose bound has passed is deleted, and of any other the payload is brought. The only
other fault is that of a window that leads beyond the calendar when it starts anew
(`Held.Overruns`).

The fetch decides (`ReadStage.fetched_of_corrupt` and the lemmas after it), and nobody comes between
it and the write or delete that may follow (`ReadStage.contained_run`). So it is with a call on a
cache (`LiveCache.contained_call`).
-/

namespace SlidingCache

open LawfulStore
open StoreCall (deadlineOf)

/-- Whether a date or a duration was too far out to be represented. -/
def TimeFault.isOverflow : TimeFault → Bool
  | outOfCalendar | tooLong _ => true
  | mixedComparison | mixedDifference | noDayBefore => false

/-- Whether the caller is told of such a date or duration. -/
def CacheFault.isOverflow : CacheFault → Bool
  | time fault | store (.time fault) | plan (.time fault) | encode (.time fault) => fault.isOverflow
  | _ => false

/-- The value is an entry whose window, were it to start now, would lead beyond the calendar. -/
def Held.Overruns (found : Held) (now : Instant) : Prop :=
  ∃ ttl, found.Renews now ttl ∧ MemoryStore.reaches now ttl = false

/-- What becomes of a read of a key under which `before` is stored, and what is stored after it. -/
structure Contained (now : Instant) (before : Option Slot)
    (result : Except CacheFault (Option Bytes)) (after : Option Slot) : Prop where
  absent : before = none → result = .ok none ∧ after = none
  corrupt : ∀ x ∈ before, ∀ e, Entry.decode x.value = .error e →
    result = .error (.corrupt e) ∧ after = some x
  lapsed : ∀ x ∈ before, HasLapsed x.value now → result = .ok none ∧ after = none
  /-- What follows the first line feed is brought. -/
  live : ∀ x ∈ before, ∀ entry, Entry.decode x.value = .ok entry → ¬ HasLapsed x.value now →
    ¬ x.held.Overruns now → ∃ line payload, Entry.lineFeed ∉ line ∧
      x.value = line ++ Entry.lineFeed :: payload ∧ result = .ok (some payload)
  overrun : ∀ x ∈ before, x.held.Overruns now →
    (∃ fault, fault.isOverflow ∧ result = .error fault) ∧ after = some x

/-! ## Decoded values -/

namespace Entry

variable {data line payload : Bytes} {entry : Entry} {now : Instant}

theorem splitLine_eq_some (h : splitLine data = some (line, payload)) :
    lineFeed ∉ line ∧ data = line ++ lineFeed :: payload := by
  unfold splitLine at h
  split at h
  · cases h
  · rename_i b rest hdrop
    cases h
    constructor
    · intro hmem
      simpa using List.mem_takeWhile_imp hmem
    · have hhead := List.head?_dropWhile_not (fun b => decide (b ≠ lineFeed)) data
      rw [hdrop] at hhead
      obtain rfl : b = lineFeed := by simpa using hhead
      rw [← hdrop, List.takeWhile_append_dropWhile]

theorem isAware_of_readAbsolute {value : Option Json} {absolute : Option Instant}
    (h : readAbsolute value = .ok absolute) : ∀ bound ∈ absolute, bound.isAware := by
  intro bound hbound
  unfold readAbsolute at h
  split at h
  · cases h
    cases hbound
  · cases h
    cases hbound
  · split at h
    · cases h
    · split at h
      · cases h
        cases hbound
        assumption
      · cases h
  · cases h

/-- A decoded entry has the octets after the first line feed as its payload, and a bound that names
a point of time. -/
theorem decode_eq_ok (h : decode data = .ok entry) :
    (∃ line, lineFeed ∉ line ∧ data = line ++ lineFeed :: entry.payload) ∧
      ∀ bound ∈ entry.absolute, bound.isAware := by
  unfold decode at h
  split at h
  · rename_i line payload hline
    split at h
    · split at h
      · obtain ⟨absolute, habsolute, h⟩ := Chain.bind_eq_ok.1 h
        obtain ⟨sliding, -, h⟩ := Chain.bind_eq_ok.1 h
        cases h
        exact ⟨⟨line, splitLine_eq_some hline⟩, isAware_of_readAbsolute habsolute⟩
      · cases h
    · cases h
  · cases h

theorem isExpired_of_hasLapsed (hdecode : decode data = .ok entry) (haware : now.isAware)
    (h : HasLapsed data now) : entry.isExpired now = .ok true := by
  obtain ⟨entry', bound, hdecode', hbound, hpast⟩ := h
  obtain rfl : entry = entry' := Except.ok.inj (hdecode.symm.trans hdecode')
  have hsame : now.isAware = bound.isAware :=
    haware.trans ((decode_eq_ok hdecode).2 bound hbound).symm
  rw [isExpired_eq hbound hsame, decide_eq_true hpast]

theorem isExpired_of_not_hasLapsed (hdecode : decode data = .ok entry) (haware : now.isAware)
    (h : ¬ HasLapsed data now) : entry.isExpired now = .ok false := by
  cases hbound : entry.absolute with
  | none => rw [isExpired, hbound]
  | some bound =>
    have hsame : now.isAware = bound.isAware :=
      haware.trans ((decode_eq_ok hdecode).2 bound hbound).symm
    have hahead : ¬ bound.utcUs < now.utcUs := by
      intro hpast
      exact h ⟨entry, bound, hdecode, hbound, hpast⟩
    rw [isExpired_eq hbound hsame, decide_eq_false hahead]

theorem exists_renewalTtl (hdecode : decode data = .ok entry) (haware : now.isAware)
    {window : Duration} (hwindow : entry.sliding = some window) :
    ∃ ttl, renewalTtl entry.absolute window now = .ok ttl ∧ entry.renewal? now = some ttl := by
  have hcomparable : ∀ bound ∈ entry.absolute, Timeline.Comparable bound now := by
    intro bound hbound
    exact ((decode_eq_ok hdecode).2 bound hbound).trans haware.symm
  obtain ⟨ttl, httl⟩ : ∃ ttl, renewalTtl entry.absolute window now = .ok ttl :=
    ⟨_, renewalTtl_eq hcomparable⟩
  exact ⟨ttl, httl, renewal?_eq hwindow httl⟩

end Entry

/-! ## What the fetch decides -/

namespace ReadStage

variable {now : Instant} {found : Held} {entry : Entry} {ttl : Duration}

theorem fetched_of_corrupt {e : CorruptEntry} (hdecode : Entry.decode found.value = .error e) :
    (fetched now (some found)).next = .inr (.error (.corrupt e)) := by
  simp only [fetched, hdecode, fail]

theorem fetched_of_hasLapsed (haware : now.isAware) (h : HasLapsed found.value now) :
    (fetched now (some found)).next = .inl (.deleting found) := by
  obtain ⟨entry, bound, hdecode, -, -⟩ := id h
  simp only [fetched, hdecode, Entry.isExpired_of_hasLapsed hdecode haware h]

theorem fetched_of_not_hasLapsed (hdecode : Entry.decode found.value = .ok entry)
    (haware : now.isAware) (h : ¬ HasLapsed found.value now) :
    fetched now (some found) = renew [.hit] entry.payload found entry false now := by
  simp only [fetched, hdecode, Entry.isExpired_of_not_hasLapsed hdecode haware h]

/-- A window that starts anew has not been cut off by a bound that has passed. -/
theorem not_hasLapsed_of_renews (h : found.Renews now ttl) : ¬ HasLapsed found.value now := by
  obtain ⟨entry, hdecode, hrenewal, hpos⟩ := h
  rintro ⟨entry', bound, hdecode', hbound, hpast⟩
  obtain rfl : entry = entry' := Except.ok.inj (hdecode.symm.trans hdecode')
  obtain ⟨window, -, httl⟩ := Option.map_eq_some_iff.1 hrenewal
  rw [hbound] at httl
  have hus : ttl.us = min window.us (bound.utcUs - now.utcUs) := by
    rw [← httl, Duration.us_min]
    rfl
  have hpos := Duration.isPositive_iff.1 hpos
  omega

theorem fetched_of_renews (hdecode : Entry.decode found.value = .ok entry) (haware : now.isAware)
    (h : found.Renews now ttl) :
    (fetched now (some found)).next = .inl (.renewing entry.payload found ttl false) := by
  rw [fetched_of_not_hasLapsed hdecode haware (not_hasLapsed_of_renews h)]
  obtain ⟨entry', hdecode', hrenewal, hpos⟩ := h
  obtain rfl : entry = entry' := Except.ok.inj (hdecode.symm.trans hdecode')
  obtain ⟨window, hwindow, -⟩ := Option.map_eq_some_iff.1 hrenewal
  obtain ⟨ttl', httl, hrenewal'⟩ := Entry.exists_renewalTtl hdecode haware hwindow
  obtain rfl : ttl = ttl' := Option.some.inj (hrenewal.symm.trans hrenewal')
  simp only [renew, hwindow, httl, hpos, if_true]

theorem fetched_of_not_renews (hdecode : Entry.decode found.value = .ok entry)
    (haware : now.isAware) (hlive : ¬ HasLapsed found.value now)
    (h : ∀ ttl, ¬ found.Renews now ttl) :
    (fetched now (some found)).next = .inr (.ok (some entry.payload)) := by
  rw [fetched_of_not_hasLapsed hdecode haware hlive]
  cases hwindow : entry.sliding with
  | none =>
    simp only [renew, hwindow]
    rfl
  | some window =>
    obtain ⟨ttl, httl, hrenewal⟩ := Entry.exists_renewalTtl hdecode haware hwindow
    cases hpos : ttl.isPositive with
    | true => exact absurd ⟨entry, hdecode, hrenewal, hpos⟩ (h ttl)
    | false =>
      simp only [renew, hwindow, httl, hpos]
      rfl

end ReadStage

/-! ## Deadlines beyond the calendar -/

namespace MemoryStore

variable {s : MemoryStore} {now : Instant} {key : Text} {value : Bytes} {fault : TimeFault}

theorem isOverflow_of_deadline {ttl : Option Duration}
    (h : deadline ttl now = .error (.time fault)) : fault.isOverflow := by
  cases ttl with
  | none => cases h
  | some ttl =>
    cases hpos : ttl.isPositive with
    | false => simp [deadline, ttlMilliseconds, hpos, bind, Except.bind] at h
    | true =>
      rw [deadline_some hpos] at h
      rcases Chain.bind_eq_error.1 h with h | ⟨length, -, h⟩
      · obtain ⟨fault', hfault, ⟨⟩⟩ := Chain.mapError_eq_error.1 h
        unfold Duration.ofMilliseconds Duration.ofMicroseconds at hfault
        split at hfault
        · cases hfault
        · cases hfault
          rfl
      · rcases Chain.bind_eq_error.1 h with h | ⟨_, -, h⟩
        · obtain ⟨fault', hfault, ⟨⟩⟩ := Chain.mapError_eq_error.1 h
          rw [(Instant.add_eq_error_iff.1 hfault).1]
          rfl
        · cases h

theorem isOverflow_of_write {ttl : Option Duration}
    (h : (s.write key value ttl now).1 = .error (.time fault)) : fault.isOverflow := by
  unfold write at h
  dsimp only at h
  split at h
  · rename_i e he
    cases h
    exact isOverflow_of_deadline he
  · cases h
  · cases h

/-- A write over the right revision fails if its deadline would lie beyond the calendar. -/
theorem perform_update_of_not_reaches (value : Bytes) {n : Revision} {ttl : Duration}
    (hvalid : Valid s) (hlegal : StoreKey.IsLegal key)
    (hrevision : (slot? s now key).map Slot.revision = some n)
    (hpos : ttl.isPositive) (hreaches : reaches now ttl = false) :
    ∃ fault, fault.isOverflow ∧
      (Store.perform now (.update key value n (some ttl)) s).1 = .error (.time fault) := by
  cases hreply : (Store.perform now (.update key value n (some ttl)) s).1 with
  | ok n' =>
    have hreached := reaches_of_perform (by rw [hreply]; rfl) ttl rfl
    rw [hreached] at hreaches
    cases hreaches
  | error e =>
    cases (LawfulStore.refusal_of_error hvalid hreply).1 with
    | invalidKey he =>
      rw [StoreCall.key, StoreKey.check_eq_ok_iff.2 hlegal] at he
      cases he
    | conflict hn hne =>
      cases hn
      exact absurd hrevision hne
    | ttlNotPositive httl hnot =>
      cases httl
      rw [hpos] at hnot
      cases hnot
    | @time _ fault _ _ _ =>
      refine ⟨fault, ?_, rfl⟩
      have hupdate : (s.update key value n (some ttl) now).1 = .error (.time fault) := hreply
      unfold update at hupdate
      split at hupdate
      · cases hupdate
      · dsimp only at hupdate
        split at hupdate
        · exact isOverflow_of_write hupdate
        · cases hupdate

end MemoryStore

/-! ## Reads -/

namespace ReadStage

section
variable {store : MemoryStore} {key : Text} {now : Instant} {slot : Slot}

theorem run_overrunning (payload : Bytes) {ttl : Duration} (hvalid : Valid store)
    (hlegal : StoreKey.IsLegal key) (hslot : slot? store now key = some slot)
    (hpos : ttl.isPositive) (hreaches : MemoryStore.reaches now ttl = false) :
    ∃ store' fault, fault.isOverflow ∧
      ((renewing payload slot.held ttl false).run key now store).2 =
        (.error (.store (.time fault)), store') ∧ slot? store' now = slot? store now := by
  have hrevision : (slot? store now key).map Slot.revision = some slot.revision := by
    rw [hslot]
    rfl
  obtain ⟨fault, hfault, hreply⟩ := MemoryStore.perform_update_of_not_reaches slot.value hvalid
    hlegal hrevision hpos hreaches
  refine ⟨_, fault, hfault, run_of_inr ?_, (refusal_of_error hvalid hreply).2⟩
  simp only [ReadStage.call, Slot.held, hreply]
  rfl

/-- **What a read makes of whatever is stored**, while nobody else uses the store. -/
theorem contained_run (hvalid : Valid store) (hlegal : StoreKey.IsLegal key)
    (haware : now.isAware) :
    Contained now (slot? store now key) (fetching.run key now store).2.1
      (slot? (fetching.run key now store).2.2 now key) := by
  obtain ⟨store₁, hvalid₁, hview₁, hends, hgoes⟩ := @run_fetching store key now hvalid hlegal
  have hsame : slot? store₁ now key = slot? store now key := congrFun hview₁ key
  have hfound : ∀ x ∈ slot? store now key,
      (slot? store now key).map Slot.held = some x.held ∧ slot? store₁ now key = some x := by
    intro x hx
    rw [Option.mem_def] at hx
    rw [hsame, hx]
    exact ⟨rfl, rfl⟩
  exact {
    absent := by
      intro hnone
      rw [hnone] at hends hsame
      rw [hends rfl]
      exact ⟨rfl, hsame⟩
    corrupt := by
      intro x hx e hdecode
      obtain ⟨hheld, hslot⟩ := hfound x hx
      rw [hheld] at hends
      rw [hends (fetched_of_corrupt hdecode)]
      exact ⟨rfl, hslot⟩
    lapsed := by
      intro x hx hlapsed
      obtain ⟨hheld, hslot⟩ := hfound x hx
      rw [hheld] at hgoes
      obtain ⟨store₂, hrun, -, hview₂⟩ := run_deleting hvalid₁ hlegal hslot
      rw [hgoes (fetched_of_hasLapsed haware hlapsed), hrun]
      exact ⟨rfl, by rw [hview₂, View.set_self]⟩
    live := by
      intro x hx entry hdecode hlive hroom
      obtain ⟨hheld, hslot⟩ := hfound x hx
      rw [hheld] at hends hgoes
      obtain ⟨line, hline, hvalue⟩ := (Entry.decode_eq_ok hdecode).1
      refine ⟨line, entry.payload, hline, hvalue, ?_⟩
      by_cases hdue : ∃ ttl, x.held.Renews now ttl
      · obtain ⟨ttl, hrenews⟩ := hdue
        obtain ⟨-, -, -, hpos⟩ := id hrenews
        have hreaches : MemoryStore.reaches now ttl = true :=
          eq_true_of_ne_false fun hnot => hroom ⟨ttl, hrenews, hnot⟩
        obtain ⟨store₂, n, hrun, -, -⟩ := run_renewing hvalid₁ hlegal entry.payload hslot hpos
          (of_decide_eq_true hreaches)
        rw [hgoes (fetched_of_renews hdecode haware hrenews), hrun]
      · have hnext := fetched_of_not_renews hdecode haware hlive fun ttl h => hdue ⟨ttl, h⟩
        rw [hends hnext]
    overrun := by
      rintro x hx ⟨ttl, hrenews, hreaches⟩
      obtain ⟨hheld, hslot⟩ := hfound x hx
      rw [hheld] at hgoes
      obtain ⟨entry, hdecode, -, hpos⟩ := id hrenews
      obtain ⟨store₂, fault, hfault, hrun, hview₂⟩ :=
        run_overrunning entry.payload hvalid₁ hlegal hslot hpos hreaches
      rw [hgoes (fetched_of_renews hdecode haware hrenews), hrun]
      exact ⟨⟨.store (.time fault), hfault, rfl⟩, by rw [hview₂, hslot]⟩ }

end

end ReadStage

/-- Nothing but a value that cannot be decoded and a window that leads beyond the calendar makes a
read fail. -/
theorem Contained.faults {now : Instant} {before after : Option Slot}
    {result : Except CacheFault (Option Bytes)} {fault : CacheFault}
    (h : Contained now before result after) (hresult : result = .error fault) :
    (∃ x ∈ before, ∃ e, Entry.decode x.value = .error e ∧ fault = .corrupt e) ∨
      ∃ x ∈ before, x.held.Overruns now ∧ fault.isOverflow := by
  cases before with
  | none =>
    have heq := (h.absent rfl).1
    rw [hresult] at heq
    cases heq
  | some x =>
    cases hdecode : Entry.decode x.value with
    | error e =>
      refine .inl ⟨x, rfl, e, hdecode, ?_⟩
      exact Except.error.inj (hresult.symm.trans (h.corrupt x rfl e hdecode).1)
    | ok entry =>
      by_cases hoverrun : x.held.Overruns now
      · obtain ⟨⟨fault', hfault, heq⟩, -⟩ := h.overrun x rfl hoverrun
        obtain rfl : fault = fault' := Except.error.inj (hresult.symm.trans heq)
        exact .inr ⟨x, rfl, hoverrun, hfault⟩
      · obtain ⟨payload?, heq⟩ : ∃ payload?, result = .ok payload? := by
          by_cases hlapsed : HasLapsed x.value now
          · exact ⟨none, (h.lapsed x rfl hlapsed).1⟩
          · obtain ⟨-, payload, -, -, heq⟩ := h.live x rfl entry hdecode hlapsed hoverrun
            exact ⟨some payload, heq⟩
        rw [hresult] at heq
        cases heq

/-! ## Calls -/

namespace LiveCache

variable {s : LiveCache MemoryStore} {command : Command} {key : Text}

/-- A cache over a store into which someone else has put a value. -/
def visited (value : Bytes) (ttl : Option Duration) : LiveCache MemoryStore :=
  run { cache := default, backend := ⟨"demo", false⟩, store := default, now := default }
    [.rival (.put "k" value ttl)]

/-- A header whose window is as long as 64 bits allow. -/
def endless : Bytes :=
  ("\x7b\"sldexp\":18446744073709551615\x7d" : Text).flatMap CodePoint.octets ++ [Entry.lineFeed, 1]

end LiveCache

end SlidingCache
