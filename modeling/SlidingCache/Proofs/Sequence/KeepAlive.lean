import SlidingCache.Proofs.Sequence.Refinement
import SlidingCache.Proofs.Sequence.Verdicts
import SlidingCache.Proofs.Shared.Asked

/-!
# Alive while it is read, dead when left alone

An entry with a sliding window lives as long as every read of it comes less than the window after
the access before and ahead of its bound; left alone for the window, or until past the bound, it is
dead (`LiveCache.lives_while_read`). In between anything may be done with other keys.

What carries the induction over the rounds is that the store shows the item as a renewal at the last
access leaves it (`LiveCache.Shows`). Nothing of the renewals before that remains
(`Item.renewed_renewed`), and the set itself leaves what a renewal at its instant would
(`ExpirationPlan.renewed_item`). With a window of at most `2 ^ 44` milliseconds a time to live is
stored as the next whole number of milliseconds: never less than asked for, and for the window never
more than the window rounded up.
-/

namespace SlidingCache

open LawfulStore
open StoreCall (deadlineOf)

/-! ## The life of an item -/

namespace Item

variable {x : Item} {window : Duration} {now later : Instant}

@[simp] theorem payload_renewed : (x.renewed now).payload = x.payload := by
  unfold renewed
  repeat' split
  all_goals rfl

@[simp] theorem absolute_renewed : (x.renewed now).absolute = x.absolute := by
  unfold renewed
  repeat' split
  all_goals rfl

@[simp] theorem sliding_renewed : (x.renewed now).sliding = x.sliding := by
  unfold renewed
  repeat' split
  all_goals rfl

@[simp] theorem window?_renewed : (x.renewed now).window? later = x.window? later := by
  simp [window?]

/-- An item with a window whose milliseconds are exact. -/
structure Slides (x : Item) (window : Duration) : Prop where
  sliding : x.sliding = some window
  positive : window.isPositive
  short : window.us ≤ (Nat.pow 2 44 * 1000 : Nat)

/-- The bound, if there is one, lies ahead. -/
def IsBefore (x : Item) (now : Instant) : Prop := ∀ bound ∈ x.absolute, now.utcUs < bound.utcUs

instance : Decidable (x.IsBefore now) :=
  inferInstanceAs (Decidable (∀ bound ∈ x.absolute, now.utcUs < bound.utcUs))

/-- Ahead of the bound a read starts the whole window, or what is left of the time to the bound. -/
theorem Slides.exists_window? (h : x.Slides window) (hbefore : x.IsBefore now) :
    ∃ left, x.window? now = some left ∧ left.isPositive ∧ left.us ≤ window.us ∧
      (left.us = window.us ∨ ∃ bound ∈ x.absolute, now.utcUs + left.us = bound.utcUs) := by
  have hpos := Duration.isPositive_iff.1 h.positive
  rw [window?, h.sliding, Option.map_some]
  cases hbound : x.absolute with
  | none => exact ⟨window, rfl, h.positive, Int.le_refl _, .inl rfl⟩
  | some bound =>
    have hahead := hbefore bound hbound
    have hleft : (min window (bound.since now)).us = min window.us (bound.utcUs - now.utcUs) :=
      Duration.us_min _ _
    refine ⟨min window (bound.since now), rfl, Duration.isPositive_iff.2 (by omega), by omega, ?_⟩
    rcases Int.le_total window.us (bound.utcUs - now.utcUs) with hle | hle
    · exact .inl (by omega)
    · exact .inr ⟨bound, rfl, by omega⟩

/-- The end that a read ahead of the bound gives to an item. -/
theorem Slides.exists_deadline (h : x.Slides window) (hbefore : x.IsBefore now) :
    ∃ left : Int, (x.renewed now).deadline = some (now.utcUs + (left + 999) / 1000 * 1000) ∧
      left ≤ window.us ∧
      (left = window.us ∨ ∃ bound ∈ x.absolute, now.utcUs + left = bound.utcUs) := by
  obtain ⟨left, hleft, hpos, hle, hreach⟩ := h.exists_window? hbefore
  refine ⟨left.us, ?_, hle, hreach⟩
  rw [renewed_of_isPositive hleft hpos,
    ← Duration.milliseconds_eq hpos (Int.le_trans hle h.short)]
  rfl

/-- A renewal leaves nothing of the one before. -/
theorem Slides.renewed_renewed (h : x.Slides window) (hbefore : x.IsBefore later) :
    (x.renewed now).renewed later = x.renewed later := by
  obtain ⟨left, hleft, hpos, -⟩ := h.exists_window? hbefore
  rw [renewed_of_isPositive (window?_renewed.trans hleft) hpos, renewed_of_isPositive hleft hpos]
  simp

/-- Less than the window after a read, and ahead of the bound, an item is live. -/
theorem Slides.isLive_renewed (h : x.Slides window) (hbefore : x.IsBefore now)
    (hgap : later.utcUs < now.utcUs + window.us) (hahead : x.IsBefore later) :
    (x.renewed now).isLive later := by
  obtain ⟨left, hdeadline, -, hreach⟩ := h.exists_deadline hbefore
  rw [isLive_iff, hdeadline, absolute_renewed]
  refine ⟨fun us hus => ?_, fun bound hbound => Int.le_of_lt (hahead bound hbound)⟩
  cases hus
  have hleft : later.utcUs < now.utcUs + left := by
    rcases hreach with rfl | ⟨bound, hbound, heq⟩
    · exact hgap
    · exact heq ▸ hahead bound hbound
  omega

/-- The window after a read, rounded up to a whole millisecond, an item is dead, and so it is past
its bound. -/
theorem Slides.isDead_renewed (h : x.Slides window) (hbefore : x.IsBefore now)
    (hlate : now.utcUs + (window.us + 999) / 1000 * 1000 ≤ later.utcUs ∨
      ∃ bound ∈ x.absolute, bound.utcUs < later.utcUs) :
    (x.renewed now).isLive later = false := by
  obtain ⟨left, hdeadline, hle, -⟩ := h.exists_deadline hbefore
  refine Bool.eq_false_iff.2 fun hlive => ?_
  obtain ⟨hend, hbound⟩ := isLive_iff.1 hlive
  have hend := hend _ hdeadline
  rw [absolute_renewed] at hbound
  rcases hlate with hlate | ⟨bound, hmem, hpast⟩
  · omega
  · have := hbound bound hmem
    omega

end Item

namespace ExpirationPlan

variable {options : ExpirationOptions} {plan : ExpirationPlan} {now : Instant} {window : Duration}

/-- A set with a window leaves an item as a read at the same instant would. -/
theorem renewed_item (value : Bytes) (haware : now.isAware) (hplan : options.plan now = .ok plan)
    (hwindow : options.sliding = some window) :
    plan.sliding = some window ∧ (plan.item value now).renewed now = plan.item value now := by
  obtain ⟨-, habsolute, hsliding⟩ := ExpirationOptions.plan_spec haware hplan
  obtain ⟨⟨⟩, -, h⟩ := Chain.bind_eq_ok.1 hplan
  obtain ⟨bound, -, h⟩ := Chain.bind_eq_ok.1 h
  cases bound with
  | none =>
    cases h
    have hpos := hsliding window hwindow
    refine ⟨hwindow, ?_⟩
    have hleft : (item ⟨options.sliding, none, options.sliding⟩ value now).window? now =
        some window := by
      simp [Item.window?, item, hwindow]
    rw [Item.renewed_of_isPositive hleft hpos, ← hwindow]
    rfl
  | some bound =>
    obtain ⟨ttl, httl, h⟩ := Chain.bind_eq_ok.1 h
    cases h
    obtain ⟨hboundAware, hahead⟩ := habsolute bound rfl
    have httl := Chain.mapError_eq_ok.1 httl
    have hcomparable : Timeline.Comparable bound now := hboundAware.trans haware.symm
    rw [ExpirationOptions.ttlTo_eq hcomparable (Int.sub_pos.2 hahead), hwindow] at httl
    obtain rfl : min (bound.since now) window = ttl := Except.ok.inj httl
    have hpos : (min window (bound.since now)).isPositive :=
      Duration.isPositive_min (hsliding window hwindow)
        (Duration.isPositive_iff.2 (Int.sub_pos.2 hahead))
    refine ⟨hwindow, ?_⟩
    have hleft : (item ⟨some (min (bound.since now) window), some bound, options.sliding⟩ value
        now).window? now = some (min window (bound.since now)) := by
      simp [Item.window?, item, hwindow]
    rw [Item.renewed_of_isPositive hleft hpos, Duration.min_comm window]
    rfl

end ExpirationPlan

/-! ## A key of a cache -/

namespace LiveCache

/-- A cache at rest that has an item under a key, or has had it until it was dead. -/
structure Shows (s : LiveCache MemoryStore) (raw key : Text) (now : Instant) (x : Item) : Prop where
  storeKey : s.cache.storeKey raw = .ok key
  clock : s.now = now
  utc : now.offset = some .utc
  valid : Valid s.store
  atRest : s.AtRest
  mirrors : Mirrors now (slot? s.store now key) (some x)

variable {s : LiveCache MemoryStore} {raw key : Text} {now later : Instant} {x : Item}
  {command : Command}

theorem Shows.wait {time : Duration} (h : s.Shows raw key now x) (hforward : 0 ≤ time.us)
    (hadd : now.add time = .ok later) : (s.step (.advance time)).Shows raw key later x := by
  have hstep : s.step (.advance time) = { s with now := later } := by
    rw [step, h.clock, hadd]
  have hle : now.utcUs ≤ later.utcUs := by
    rw [Instant.utcUs_add hadd]
    omega
  rw [hstep]
  exact {
    storeKey := h.storeKey
    clock := rfl
    utc := (Instant.add_eq_ok_iff.1 hadd).2.trans h.utc
    valid := h.valid
    atRest := h.atRest
    mirrors := h.mirrors.later h.valid hle }

/-- What a call leaves behind. -/
theorem shows_of_settled {store : MemoryStore} {s' : LiveCache MemoryStore}
    (hkey : s.cache.storeKey raw = .ok key) (hutc : s.now.offset = some .utc)
    (hs : s.Settled store s') (hvalid : Valid store)
    (hmirrors : Mirrors s.now (slot? store s.now key) (some x)) : s'.Shows raw key s.now x where
  storeKey := by rw [hs.cache, hkey]
  clock := hs.now
  utc := hutc
  valid := by rw [hs.store]; exact hvalid
  atRest := hs.atRest
  mirrors := by rw [hs.store]; exact hmirrors

/-- Commands on other keys leave the item. -/
theorem Shows.call_of_ne (h : s.Shows raw key now x) (hne : command.key ≠ raw) :
    (s.call command true).2.Shows raw key now x := by
  obtain rfl := h.clock
  cases hrequest : command.request s.cache s.now with
  | error fault =>
    obtain ⟨-, hs⟩ := call_of_error h.atRest hrequest
    exact shows_of_settled h.storeKey h.utc hs h.valid h.mirrors
  | ok r =>
    obtain ⟨-, hs⟩ := call_of_ok h.atRest hrequest Work.rank_le
    have hvalid : Valid (r.work.run r.key s.now s.store).2 := by
      rw [← hs.store]
      exact valid_run h.valid _
    have hapart : key ≠ r.key := by
      rintro rfl
      exact hne (Cache.storeKey_injective (Command.storeKey_of_request hrequest) h.storeKey)
    have hslot : slot? (r.work.run r.key s.now s.store).2 s.now key = slot? s.store s.now key :=
      Work.slot?_run_of_ne h.valid (Command.isApt_of_request hrequest).call.key hapart
    exact shows_of_settled h.storeKey h.utc hs hvalid (by rw [hslot]; exact h.mirrors)

/-- A read of a live item hits and starts its window anew. -/
theorem Shows.call_of_live (h : s.Shows raw key now x) (hread : command.isRead)
    (hraw : command.key = raw) (hlive : x.isLive now) (hfits : (x.renewed now).Fits) :
    s.Brings key command (some x.payload) ∧
      (s.call command true).2.Shows raw key now (x.renewed now) := by
  obtain rfl := h.clock
  subst hraw
  have hlegal := Cache.isLegal_storeKey h.storeKey
  have hmirrors := h.mirrors
  cases hslot : slot? s.store s.now key with
  | none =>
    rw [hslot] at hmirrors
    cases hmirrors with
    | gone hdead => exact absurd hlive (Bool.eq_false_iff.1 (hdead x rfl))
  | some slot =>
    rw [hslot] at hmirrors
    cases hmirrors with
    | shown hx =>
      obtain ⟨hpayload, hleaves⟩ :=
        ReadStage.run_of_live h.valid hlegal h.utc hslot hx hlive hfits
      have hrequest := Command.request_of_isRead s.now hread h.storeKey
      obtain ⟨-, hs⟩ := call_of_ok h.atRest hrequest Work.rank_le
      exact ⟨brings_of_run h.atRest hread h.storeKey hpayload,
        shows_of_settled h.storeKey h.utc hs hleaves.valid hleaves.here⟩

/-- A read of a dead item misses. -/
theorem Shows.call_of_dead (h : s.Shows raw key now x) (hread : command.isRead)
    (hraw : command.key = raw) (hdead : x.isLive now = false) : s.Brings key command none := by
  obtain rfl := h.clock
  subst hraw
  have hlegal := Cache.isLegal_storeKey h.storeKey
  have hnone : ∀ y ∈ some x, y.isLive s.now = false := by
    rintro y ⟨⟩
    exact hdead
  exact brings_of_run h.atRest hread h.storeKey
    (ReadStage.run_of_dead h.valid hlegal h.utc h.mirrors hnone).1

/-- A set puts its item under the key, whatever was there before. -/
theorem shows_of_set {value : Bytes} {options : ExpirationOptions} {plan : ExpirationPlan}
    (hvalid : Valid s.store) (hrest : s.AtRest) (hutc : s.now.offset = some .utc)
    (hkey : s.cache.storeKey raw = .ok key) (hplan : options.plan s.now = .ok plan)
    (hfits : (plan.item value s.now).Fits) :
    (s.call (.set raw value options) true).1 = some (.ok .done) ∧
      (s.call (.set raw value options) true).2.Shows raw key s.now (plan.item value s.now) := by
  obtain ⟨data, hcall, hshown⟩ := Command.exists_writeCall key hutc hplan hfits
  have hpos := (ExpirationOptions.plan_spec (Instant.isAware_of_utc hutc) hplan).1
  obtain ⟨hreply, hleaves⟩ := Work.run_put hvalid (Cache.isLegal_storeKey hkey) hpos
    (hfits.room hutc rfl) hshown
  have hwork : (Command.set raw value options).work key s.now =
      .ok (.write (.put key data plan.ttl)) := Chain.map_eq_ok.2 ⟨_, hcall, rfl⟩
  have hkey' : s.cache.storeKey (Command.set raw value options).key = .ok key := hkey
  obtain ⟨hanswer, hs⟩ := call_of_ok hrest (Command.request_eq_ok hkey' hwork) Work.rank_le
  refine ⟨hanswer.trans ?_, shows_of_settled hkey hutc hs hleaves.valid hleaves.here⟩
  simp only [hreply]
  rfl

section
variable {window : Duration} {last : Instant}

/-- An access in time hits and leaves the item as it renews it. -/
theorem Shows.access (h : s.Shows raw key now (x.renewed last)) (hslides : x.Slides window)
    (hlast : x.IsBefore last) (hread : command.isRead) (hraw : command.key = raw)
    (hgap : now.utcUs < last.utcUs + window.us) (hbefore : x.IsBefore now)
    (hfits : (x.renewed now).Fits) :
    s.Brings key command (some x.payload) ∧
      (s.call command true).2.Shows raw key now (x.renewed now) := by
  have hrenewed : (x.renewed last).renewed now = x.renewed now := hslides.renewed_renewed hbefore
  have hlive := hslides.isLive_renewed hlast hgap hbefore
  have haccess := h.call_of_live hread hraw hlive (hrenewed ▸ hfits)
  rw [hrenewed, Item.payload_renewed] at haccess
  exact haccess

end

/-! ## Rounds -/

/-- The cache after some rounds. -/
def after (s : LiveCache MemoryStore) (rounds : List Round) : LiveCache MemoryStore :=
  rounds.foldl (fun s r => (s.round r).2) s

theorem after_concat {rounds : List Round} {r : Round} :
    s.after (rounds ++ [r]) = ((s.after rounds).round r).2 := by
  rw [after, List.foldl_append]
  rfl

/-- Rounds after a set of an item: its key is only read, each time less than the window after the
access before and ahead of the bound, when the calendar has room for what the read writes. The last
access is at `last`, and the rounds end at `now`. -/
inductive Paced (raw : Text) (x : Item) (window : Duration) (start : Instant) :
    List Round → (last now : Instant) → Prop
  | nil : Paced raw x window start [] start start
  | other {rounds last now later time command} : Paced raw x window start rounds last now →
    0 ≤ time.us → now.add time = .ok later → command.key ≠ raw →
    Paced raw x window start (rounds ++ [(time, command)]) last later
  | read {rounds last now later time command} : Paced raw x window start rounds last now →
    0 ≤ time.us → now.add time = .ok later → command.key = raw → command.isRead →
    later.utcUs < last.utcUs + window.us → x.IsBefore later → (x.renewed later).Fits →
    Paced raw x window start (rounds ++ [(time, command)]) later later

variable {window : Duration} {start last : Instant} {rounds earlier rest : List Round} {r : Round}

/-- The last access comes ahead of the bound if the first does. -/
theorem Paced.isBefore (h : Paced raw x window start rounds last now) (hstart : x.IsBefore start) :
    x.IsBefore last := by
  induction h with
  | nil => exact hstart
  | other _ _ _ _ ih => exact ih
  | read _ _ _ _ _ _ hbefore => exact hbefore

theorem Paced.init (h : Paced raw x window start (rounds ++ [r]) last now) :
    ∃ last now, Paced raw x window start rounds last now := by
  generalize hrounds : rounds ++ [r] = all at h
  cases h with
  | nil => exact absurd hrounds (by simp)
  | other hpaced | read hpaced =>
    obtain ⟨rfl, -⟩ := List.append_inj' hrounds rfl
    exact ⟨_, _, hpaced⟩

/-- Paced rounds up to one of them. -/
theorem Paced.until (h : Paced raw x window start (earlier ++ r :: rest) last now) :
    ∃ last now, Paced raw x window start (earlier ++ [r]) last now := by
  induction rest using List.reverseRecOn generalizing last now with
  | nil => exact ⟨last, now, h⟩
  | append_singleton rest q ih =>
    rw [← List.cons_append, ← List.append_assoc] at h
    obtain ⟨_, _, hinit⟩ := h.init
    exact ih hinit

/-- **Paced rounds keep an item alive.** The store shows the item as the last access left it. -/
theorem Paced.shows (h : Paced raw x window start rounds last now) (hslides : x.Slides window)
    (hstart : x.IsBefore start) (hs : s.Shows raw key start (x.renewed start)) :
    (s.after rounds).Shows raw key now (x.renewed last) := by
  induction h with
  | nil => exact hs
  | other _ hforward hadd hne ih =>
    rw [after_concat]
    exact (ih.wait hforward hadd).call_of_ne hne
  | read hpaced hforward hadd hraw hread hgap hbefore hfits ih =>
    rw [after_concat]
    have hlast := hpaced.isBefore hstart
    exact ((ih.wait hforward hadd).access hslides hlast hread hraw hgap hbefore hfits).2

/-- The last of paced rounds hits if it is a read of the key. -/
theorem Paced.hits (h : Paced raw x window start (earlier ++ [r]) last now)
    (hslides : x.Slides window) (hstart : x.IsBefore start)
    (hs : s.Shows raw key start (x.renewed start)) (hraw : r.2.key = raw) :
    ((s.after earlier).step (.advance r.1)).Brings key r.2 (some x.payload) := by
  generalize hrounds : earlier ++ [r] = rounds at h
  cases h with
  | nil => exact absurd hrounds (by simp)
  | other _ _ _ hne =>
    obtain ⟨rfl, hr⟩ := List.append_inj' hrounds rfl
    cases hr
    exact absurd hraw hne
  | read hpaced hforward hadd _ hread hgap hbefore hfits =>
    obtain ⟨rfl, hr⟩ := List.append_inj' hrounds rfl
    cases hr
    have hshows := (hpaced.shows hslides hstart hs).wait hforward hadd
    have hlast := hpaced.isBefore hstart
    exact (hshows.access hslides hlast hread hraw hgap hbefore hfits).1

/-- **Alive while it is read, dead when left alone.** After a set with a window every read in paced
rounds hits. The window after the last access, rounded up to a whole millisecond, a read misses, and
so does a read past the bound. -/
theorem lives_while_read {cache : Cache} {backend : Backend} {first : Instant} {before : List Event}
    (hs : s = run { cache, backend, store := default, now := first } before) (hrest : s.AtRest)
    (hutc : s.now.offset = some .utc) (hkey : cache.storeKey raw = .ok key) {value : Bytes}
    {options : ExpirationOptions} {plan : ExpirationPlan} (hplan : options.plan s.now = .ok plan)
    (hwindow : options.sliding = some window) (hshort : window.us ≤ (Nat.pow 2 44 * 1000 : Nat))
    (hfits : (plan.item value s.now).Fits)
    (hpaced : Paced raw (plan.item value s.now) window s.now rounds last now) :
    (s.call (.set raw value options) true).1 = some (.ok .done) ∧
      (∀ earlier r rest, rounds = earlier ++ r :: rest → r.2.key = raw →
        (((s.call (.set raw value options) true).2.after earlier).step (.advance r.1)).Brings key
          r.2 (some value)) ∧
      ∀ {time later command}, 0 ≤ time.us → now.add time = .ok later → command.key = raw →
        command.isRead →
        (last.utcUs + (window.us + 999) / 1000 * 1000 ≤ later.utcUs ∨
          ∃ bound ∈ plan.absolute, bound.utcUs < later.utcUs) →
        (((s.call (.set raw value options) true).2.after rounds).step (.advance time)).Brings key
          command none := by
  have hcache : s.cache = cache := by rw [hs, cache_run]
  have hvalid : Valid s.store := hs ▸ valid_run MemoryStore.valid_default before
  have haware := Instant.isAware_of_utc hutc
  obtain ⟨hsliding, hrenewed⟩ := plan.renewed_item value haware hplan hwindow
  obtain ⟨-, habsolute, hpositive⟩ := ExpirationOptions.plan_spec haware hplan
  have hslides : (plan.item value s.now).Slides window := ⟨hsliding, hpositive _ hsliding, hshort⟩
  have hstart : (plan.item value s.now).IsBefore s.now :=
    fun bound hbound => (habsolute bound hbound).2
  obtain ⟨hdone, hshows⟩ := shows_of_set hvalid hrest hutc (hcache ▸ hkey) hplan hfits
  rw [← hrenewed] at hshows
  refine ⟨hdone, fun earlier r rest hsplit hraw => ?_, ?_⟩
  · subst hsplit
    obtain ⟨last, now, huntil⟩ := hpaced.until
    exact huntil.hits hslides hstart hshows hraw
  · intro time later command hforward hadd hraw hread hlate
    have hdead := hslides.isDead_renewed (hpaced.isBefore hstart) hlate
    exact ((hpaced.shows hslides hstart hshows).wait hforward hadd).call_of_dead hread hraw hdead

/-- A cache in memory under one of whose keys someone else has written. -/
def contested : LiveCache MemoryStore :=
  run { cache := default, backend := ⟨"demo", false⟩, store := default, now := default }
    [.rival (.put "k" [0] none)]

/-- A window of half a millisecond more than a second, and a bound after two seconds and a half. -/
def windowAndBound : ExpirationOptions where
  absolute := some ⟨2500000, some .utc, by decide⟩
  sliding := some ⟨1000500, by decide⟩

/-- The plan of these options at the beginning. -/
def planned : ExpirationPlan :=
  ⟨windowAndBound.sliding, windowAndBound.absolute, windowAndBound.sliding⟩

/-- Two reads, the first a microsecond before the window ends, and a set of another key between
them. -/
def twoReads : List Round :=
  [(⟨1000499, by decide⟩, .tryGet "k" [0x2D]), (⟨500000, by decide⟩, .set "j" [1] {}),
    (⟨400000, by decide⟩, .refresh "k")]

/-- Both reads hit. Then the key is left alone: a microsecond past the bound it misses, though the
store would keep the entry longer, and so it does when the window, rounded up, has passed. -/
theorem lives_while_read_twoReads :
    let s := contested.call (.set "k" [0x76] windowAndBound) true
    s.1 = some (.ok .done) ∧
      (s.2.step (.advance ⟨1000499, by decide⟩)).Brings "k" (.tryGet "k" [0x2D]) (some [0x76]) ∧
      ((s.2.after (twoReads.take 2)).step (.advance ⟨400000, by decide⟩)).Brings "k" (.refresh "k")
        (some [0x76]) ∧
      ((s.2.after twoReads).step (.advance ⟨599502, by decide⟩)).Brings "k" (.get "k") none ∧
      ((s.2.after twoReads).step (.advance ⟨1001000, by decide⟩)).Brings "k" (.get "k") none := by
  have hplan : windowAndBound.plan contested.now = .ok planned := by decide +kernel
  have hfirst : Paced "k" (planned.item [0x76] contested.now) ⟨1000500, by decide⟩ contested.now
      ([] ++ [(⟨1000499, by decide⟩, .tryGet "k" [0x2D])]) ⟨1000499, some .utc, by decide⟩
      ⟨1000499, some .utc, by decide⟩ :=
    .read .nil (by decide) (by decide +kernel) rfl rfl (by decide) (by decide) (by decide +kernel)
  have hsecond : Paced "k" (planned.item [0x76] contested.now) ⟨1000500, by decide⟩ contested.now
      (twoReads.take 2) ⟨1000499, some .utc, by decide⟩ ⟨1500499, some .utc, by decide⟩ :=
    .other hfirst (by decide) rfl (by decide)
  have hpaced : Paced "k" (planned.item [0x76] contested.now) ⟨1000500, by decide⟩ contested.now
      twoReads ⟨1900499, some .utc, by decide⟩ ⟨1900499, some .utc, by decide⟩ :=
    .read hsecond (by decide) rfl rfl rfl (by decide) (by decide) (by decide +kernel)
  have hcontested : contested = run
      { cache := default, backend := ⟨"demo", false⟩, store := default, now := default }
      [.rival (.put "k" [0] none)] := rfl
  have hlives := lives_while_read hcontested (fun _ => rfl) rfl rfl hplan rfl (by decide)
    (by decide +kernel) hpaced
  generalize contested.call (.set "k" [0x76] windowAndBound) true = s at hlives ⊢
  obtain ⟨hdone, hhits, hmisses⟩ := hlives
  have hpast : (⟨1900499, some .utc, by decide⟩ : Instant).add ⟨599502, by decide⟩ =
    .ok ⟨2500001, some .utc, by decide⟩ := rfl
  have hidle : (⟨1900499, some .utc, by decide⟩ : Instant).add ⟨1001000, by decide⟩ =
    .ok ⟨2901499, some .utc, by decide⟩ := rfl
  have hearly := hhits [] (⟨1000499, by decide⟩, .tryGet "k" [0x2D]) (twoReads.drop 1) rfl rfl
  have hrefresh := hhits (twoReads.take 2) (⟨400000, by decide⟩, .refresh "k") [] rfl rfl
  exact ⟨hdone, hearly, hrefresh, hmisses (by decide) hpast rfl rfl (.inr ⟨_, rfl, by decide⟩),
    hmisses (by decide) hidle rfl rfl (.inl (by decide))⟩

end LiveCache

end SlidingCache
