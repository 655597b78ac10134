import SlidingCache.Proofs.Entry
import SlidingCache.Proofs.Expiration
import SlidingCache.Proofs.Key.Encoding
import SlidingCache.Proofs.Sequence.Calls
import SlidingCache.Proofs.Sequence.Dictionary
import SlidingCache.Proofs.Store.Memory

/-!
# A cache of one's own is a plain dictionary

One command after another on a cache over an empty store in memory gets the answers of the plain
dictionary (`LiveCache.answers_eq`), whatever the encoding and the prefix of the keys.

The two are kept together by `Agrees`: under the store key of an application key the store shows the
item that the dictionary has, or nothing if that item is dead (`Mirrors`). The dictionary keeps dead
items and the store drops them sooner or later, on which no answer depends. A command touches one
store key (`Leaves`), which is that of its application key alone, and time passing can only make
shown items vanish that are dead by then.
-/

namespace SlidingCache

open LawfulStore
open StoreCall (deadlineOf)

/-! ## Items and stored entries -/

/-- An entry that says what an item says, its bound perhaps at another offset. -/
structure Entry.Renders (e : Entry) (x : Item) : Prop where
  payload : e.payload = x.payload
  absolute : e.absolute.map Instant.utcUs = x.absolute.map Instant.utcUs
  aware : ∀ bound ∈ e.absolute, bound.isAware
  sliding : e.sliding = x.sliding

/-- A slot in which an item is stored. -/
structure Item.Shown (x : Item) (slot : Slot) : Prop where
  entry : ∃ e, Entry.decode slot.value = .ok e ∧ e.Renders x
  deadline : slot.deadline = x.deadline

/-- The end of a time to live that an item has lies in the calendar. -/
theorem Item.Fits.room {x : Item} {now : Instant} {ttl : Option Duration} (h : x.Fits)
    (hutc : now.offset = some .utc) (hdeadline : x.deadline = deadlineOf ttl now) :
    ∀ d ∈ ttl, now.reading + d.milliseconds * 1000 < calendarUs := by
  intro d hd
  rw [Option.mem_def] at hd
  have hend : now.utcUs + d.milliseconds * 1000 < calendarUs :=
    h.deadline _ (by rw [hdeadline, hd]; rfl)
  rw [Instant.utcUs_of_utc hutc] at hend
  omega

namespace Entry.Renders

variable {e : Entry} {x : Item} {now bound : Instant}

theorem absolute_eq_none (h : e.Renders x) (hnone : e.absolute = none) : x.absolute = none := by
  have habsolute := h.absolute
  rw [hnone, Option.map_none] at habsolute
  exact Option.map_eq_none_iff.1 habsolute.symm

theorem exists_absolute (h : e.Renders x) (hbound : e.absolute = some bound) :
    ∃ bound', x.absolute = some bound' ∧ bound'.utcUs = bound.utcUs := by
  have habsolute := h.absolute
  rw [hbound, Option.map_some] at habsolute
  exact Option.map_eq_some_iff.1 habsolute.symm

theorem isExpired_eq (h : e.Renders x) (haware : now.isAware) :
    e.isExpired now = .ok (!x.absolute.all (now.utcUs ≤ ·.utcUs)) := by
  cases hbound : e.absolute with
  | none =>
    simp only [isExpired, hbound, h.absolute_eq_none hbound]
    rfl
  | some bound =>
    obtain ⟨bound', hbound', hus⟩ := h.exists_absolute hbound
    rw [Entry.isExpired_eq hbound (haware.trans (h.aware bound hbound).symm), hbound', ← hus,
      Option.all_some, ← decide_not]
    exact congrArg _ (decide_eq_decide.2 Int.not_le.symm)

theorem exists_renewalTtl (h : e.Renders x) (haware : now.isAware) {window : Duration}
    (hwindow : x.sliding = some window) :
    ∃ left, renewalTtl e.absolute window now = .ok left ∧ x.window? now = some left := by
  rw [Item.window?, hwindow, Option.map_some]
  cases hbound : e.absolute with
  | none =>
    rw [h.absolute_eq_none hbound]
    exact ⟨window, rfl, rfl⟩
  | some bound =>
    obtain ⟨bound', hbound', hus⟩ := h.exists_absolute hbound
    rw [hbound']
    refine ⟨min window (bound.since now), ?_, ?_⟩
    · rw [renewalTtl, Timeline.since?_instant,
        Instant.since?_eq ((h.aware bound hbound).trans haware.symm)]
      rfl
    · exact congrArg some (congrArg (min window) (Instant.since_congr hus))

end Entry.Renders

/-- What the store shows under a key for an item of the dictionary, or for none. A dead item may
still be shown if it is its bound that has passed. -/
inductive Mirrors (now : Instant) : Option Slot → Option Item → Prop
  | shown {slot x} : x.Shown slot → Mirrors now (some slot) (some x)
  | gone {x?} : (∀ x ∈ x?, x.isLive now = false) → Mirrors now none x?

/-- What is done with one key: what the dictionary then has for it is mirrored, and all else is
as it was. -/
structure Leaves (key : Text) (now : Instant) (store : MemoryStore) (x? : Option Item)
    (store' : MemoryStore) : Prop where
  valid : Valid store'
  here : Mirrors now (slot? store' now key) x?
  elsewhere : ∀ {k}, k ≠ key → slot? store' now k = slot? store now k

section
variable {store store' : MemoryStore} {key : Text} {now now' : Instant} {slot : Slot} {x : Item}
  {x? : Option Item}

theorem Mirrors.later (h : Mirrors now (slot? store now key) x?) (hvalid : Valid store)
    (hle : now.utcUs ≤ now'.utcUs) : Mirrors now' (slot? store now' key) x? := by
  rcases LawfulStore.later key hvalid hle with hsame | ⟨hnone, slot, us, hslot, hus, hpast⟩
  · rw [hsame]
    generalize slot? store now key = slot? at h
    cases h with
    | shown hx => exact .shown hx
    | gone hdead => exact .gone fun x hx => Item.isDead_of_le (hdead x hx) hle
  · -- the item whose time has come has vanished, and is dead
    rw [hnone]
    rw [hslot] at h
    cases h with
    | shown hx =>
      refine .gone fun x hmem => Bool.eq_false_iff.2 fun hlive => ?_
      cases hmem
      have := (Item.isLive_iff.1 hlive).1 us (hx.deadline.symm.trans hus)
      omega

theorem Leaves.of_view {slot'? : Option Slot} (hvalid : Valid store')
    (hview : slot? store' now = (slot? store now).set key slot'?)
    (hmirrors : Mirrors now slot'? x?) : Leaves key now store x? store' where
  valid := hvalid
  here := by rw [hview, View.set_self]; exact hmirrors
  elsewhere hne := by rw [hview, View.set_of_ne hne]

theorem Leaves.of_eq (hvalid : Valid store') (hview : slot? store' now = slot? store now)
    (hmirrors : Mirrors now (slot? store now key) x?) : Leaves key now store x? store' where
  valid := hvalid
  here := by rw [hview]; exact hmirrors
  elsewhere _ := by rw [hview]

/-! ## Reads -/

namespace ReadStage

variable (hvalid : Valid store) (hlegal : StoreKey.IsLegal key)
include hvalid hlegal

/-- A fetch changes nothing that can be seen, and what comes next depends on what it has found. -/
theorem run_fetching : ∃ store', Valid store' ∧ slot? store' now = slot? store now ∧
    (∀ {result}, (fetched now ((slot? store now key).map Slot.held)).next = .inr result →
      (fetching.run key now store).2 = (result, store')) ∧
    ∀ {next}, (fetched now ((slot? store now key).map Slot.held)).next = .inl next →
      (fetching.run key now store).2 = (next.run key now store').2 := by
  have hfetch : (resume key now fetching (Store.perform now (fetching.call key) store).1).next =
      (fetched now ((slot? store now key).map Slot.held)).next := by
    simp only [ReadStage.call, perform_get hvalid hlegal]
    rfl
  refine ⟨(Store.perform now (fetching.call key) store).2, valid_perform hvalid,
    slot?_perform_get hvalid, ?_, ?_⟩
  · intro result hresult
    exact run_of_inr (hfetch.trans hresult)
  · intro next hnext
    exact run_of_inl (hfetch.trans hnext)

theorem run_deleting (hslot : slot? store now key = some slot) :
    ∃ store', ((deleting slot.held).run key now store).2 = (.ok none, store') ∧ Valid store' ∧
      slot? store' now = (slot? store now).set key none := by
  have hfits : (StoreCall.delete key (some slot.revision)).Fits now (slot? store now) := by
    apply StoreCall.fits_delete hlegal
    intro n hn
    cases hn
    rw [hslot]
    rfl
  obtain ⟨hreply, hview⟩ := perform_delete hvalid hfits
  refine ⟨_, run_of_inr ?_, valid_perform hvalid, hview⟩
  simp only [ReadStage.call, Slot.held, hreply]
  rfl

theorem run_renewing (payload : Bytes) {ttl : Duration} (hslot : slot? store now key = some slot)
    (hpos : ttl.isPositive) (hroom : now.reading + ttl.milliseconds * 1000 < calendarUs) :
    ∃ store' n, ((renewing payload slot.held ttl false).run key now store).2 =
        (.ok (some payload), store') ∧ Valid store' ∧
      slot? store' now =
        (slot? store now).set key (some ⟨slot.value, n, deadlineOf (some ttl) now⟩) := by
  have hfits : (StoreCall.update key slot.value slot.revision (some ttl)).Fits now
      (slot? store now) := {
    legal := hlegal
    expected := by
      intro n hn
      cases hn
      exact (congrArg (Option.map Slot.revision) hslot).trans rfl
    ttl := by
      intro d hd
      cases hd
      exact ⟨hpos, hroom⟩ }
  obtain ⟨n, hreply, hview⟩ := perform_update hvalid hfits
  refine ⟨_, n, run_of_inr ?_, valid_perform hvalid, hview⟩
  simp only [ReadStage.call, Slot.held, hreply]
  rfl

variable (hutc : now.offset = some .utc)
include hutc

/-- A read of what is absent or dead brings nothing. -/
theorem run_of_dead (hmirrors : Mirrors now (slot? store now key) x?)
    (hdead : ∀ x ∈ x?, x.isLive now = false) :
    (fetching.run key now store).2.1 = .ok none ∧
      Leaves key now store x? (fetching.run key now store).2.2 := by
  obtain ⟨store₁, hvalid₁, hview₁, hends, hgoes⟩ := run_fetching hvalid hlegal
  cases hslot : slot? store now key with
  | none =>
    rw [hslot] at hends
    rw [hends rfl]
    exact ⟨rfl, .of_eq hvalid₁ hview₁ hmirrors⟩
  | some slot =>
    rw [hslot] at hgoes hmirrors
    cases hmirrors with
    | @shown _ x hx =>
      obtain ⟨e, hdecode, he⟩ := hx.entry
      -- there is time to live left, so it is the bound that has passed
      have hpassed : x.absolute.all (now.utcUs ≤ ·.utcUs) = false := by
        have hdeadline := hx.deadline ▸ MemoryStore.lt_deadline_of_slot? hslot
        refine Bool.eq_false_iff.2 fun hahead => Bool.eq_false_iff.1 (hdead x rfl) ?_
        rw [Item.isLive_iff]
        exact ⟨hdeadline, by simpa [Option.all_eq_true] using hahead⟩
      have hexpired := he.isExpired_eq (Instant.isAware_of_utc hutc)
      rw [hpassed] at hexpired
      have hturn : fetched now (some slot.held) = ⟨[.expired], .inl (.deleting slot.held)⟩ := by
        simp only [fetched, Slot.held, hdecode, hexpired, Bool.not_false]
      rw [Option.map_some, hturn] at hgoes
      obtain ⟨store₂, hrun, hvalid₂, hview₂⟩ :=
        run_deleting hvalid₁ hlegal ((congrFun hview₁ key).trans hslot)
      rw [hgoes rfl, hrun]
      exact ⟨rfl, .of_view hvalid₂ (hview₁ ▸ hview₂) (.gone hdead)⟩

/-- A read of a live item brings its payload and starts its window anew. -/
theorem run_of_live (hslot : slot? store now key = some slot) (hx : x.Shown slot)
    (hlive : x.isLive now) (hfits : (x.renewed now).Fits) :
    (fetching.run key now store).2.1 = .ok (some x.payload) ∧
      Leaves key now store (some (x.renewed now)) (fetching.run key now store).2.2 := by
  have haware := Instant.isAware_of_utc hutc
  have hshown : Mirrors now (slot? store now key) (some x) := hslot ▸ .shown hx
  obtain ⟨store₁, hvalid₁, hview₁, hends, hgoes⟩ := run_fetching hvalid hlegal
  obtain ⟨e, hdecode, he⟩ := hx.entry
  have hexpired : e.isExpired now = .ok false := by
    have hahead : x.absolute.all (now.utcUs ≤ ·.utcUs) = true := by
      simpa [Option.all_eq_true] using (Item.isLive_iff.1 hlive).2
    rw [he.isExpired_eq haware, hahead]
    rfl
  have hturn : fetched now (some slot.held) = renew [.hit] x.payload slot.held e false now := by
    simp only [fetched, Slot.held, hdecode, hexpired, he.payload]
  rw [hslot, Option.map_some, hturn, renew, he.sliding] at hends hgoes
  cases hsliding : x.sliding with
  | none =>
    rw [hsliding] at hends
    have hrenewed : x.renewed now = x := Item.renewed_of_none (by rw [Item.window?, hsliding]; rfl)
    rw [hends rfl, hrenewed]
    exact ⟨rfl, .of_eq hvalid₁ hview₁ hshown⟩
  | some window =>
    obtain ⟨left, hleft, hwindow⟩ := he.exists_renewalTtl haware hsliding
    simp only [hsliding, hleft] at hends hgoes
    cases hpos : left.isPositive with
    | false =>
      rw [hpos] at hends
      rw [hends rfl, Item.renewed_of_not_isPositive hwindow hpos]
      exact ⟨rfl, .of_eq hvalid₁ hview₁ hshown⟩
    | true =>
      rw [hpos] at hgoes
      rw [Item.renewed_of_isPositive hwindow hpos] at hfits ⊢
      obtain ⟨store₂, n, hrun, hvalid₂, hview₂⟩ := run_renewing hvalid₁ hlegal x.payload
        ((congrFun hview₁ key).trans hslot) hpos (hfits.room hutc rfl left rfl)
      rw [hgoes rfl, hrun]
      refine ⟨rfl, .of_view hvalid₂ (hview₁ ▸ hview₂) (.shown ?_)⟩
      exact ⟨⟨e, hdecode, he.payload, he.absolute, he.aware, he.sliding⟩, rfl⟩

end ReadStage

/-! ## Writes -/

namespace Work

theorem run_put {value : Bytes} {ttl : Option Duration} (hvalid : Valid store)
    (hlegal : StoreKey.IsLegal key) (hpos : ∀ d ∈ ttl, d.isPositive)
    (hroom : ∀ d ∈ ttl, now.reading + d.milliseconds * 1000 < calendarUs)
    (hx : ∀ n, x.Shown ⟨value, n, deadlineOf ttl now⟩) :
    ((write (.put key value ttl)).run key now store).1 = .ok none ∧
      Leaves key now store (some x) ((write (.put key value ttl)).run key now store).2 := by
  have hfits : (StoreCall.put key value ttl).Fits now (slot? store now) := {
    legal := hlegal
    expected := by rintro n ⟨⟩
    ttl := fun d hd => ⟨hpos d hd, hroom d hd⟩ }
  obtain ⟨n, hreply, hview⟩ := perform_put hvalid hfits
  rw [run, hreply]
  exact ⟨rfl, .of_view (valid_perform hvalid) hview (.shown (hx n))⟩

theorem run_delete (now : Instant) (hvalid : Valid store) (hlegal : StoreKey.IsLegal key) :
    ((write (.delete key none)).run key now store).1 = .ok none ∧
      Leaves key now store none ((write (.delete key none)).run key now store).2 := by
  have hnone : ∀ n ∈ (none : Option Revision),
      (slot? store now key).map Slot.revision = some n := by
    intro n hn
    cases hn
  obtain ⟨hreply, hview⟩ := perform_delete hvalid (StoreCall.fits_delete hlegal hnone)
  rw [run, hreply]
  exact ⟨rfl, .of_view (valid_perform hvalid) hview (.gone fun x hx => by cases hx)⟩

end Work

/-- A planned item that fits can be written. -/
theorem ExpirationPlan.exists_encode {value : Bytes} {options : ExpirationOptions}
    {plan : ExpirationPlan} (hutc : now.offset = some .utc) (hplan : options.plan now = .ok plan)
    (hfits : (plan.item value now).Fits) :
    ∃ data, Entry.encode ⟨value, plan.absolute, plan.sliding⟩ = .ok data := by
  obtain ⟨-, habsolute, hsliding⟩ :=
    ExpirationOptions.plan_spec (Instant.isAware_of_utc hutc) hplan
  rw [Entry.exists_encode_iff]
  constructor
  · show ∃ absolute, plan.absolute.mapM Instant.inUtc = .ok absolute
    cases hbound : plan.absolute with
    | none => exact ⟨none, rfl⟩
    | some bound =>
      obtain ⟨haware, hahead⟩ := habsolute bound hbound
      have hnow := Instant.utcUs_of_utc hutc
      obtain ⟨bound', hbound'⟩ :=
        Instant.exists_inUtc haware (by omega) (hfits.absolute bound hbound)
      exact ⟨some bound', Chain.map_eq_ok.2 ⟨bound', hbound', rfl⟩⟩
  · intro window hwindow
    have hpos := Duration.isPositive_iff.1 (hsliding window hwindow)
    exact ⟨Int.le_trans (by decide) (Int.le_of_lt hpos), hfits.sliding window hwindow⟩

/-- A planned set of an item that fits writes it. -/
theorem Command.exists_writeCall (key : Text) {value : Bytes} {options : ExpirationOptions}
    {plan : ExpirationPlan} (hutc : now.offset = some .utc) (hplan : options.plan now = .ok plan)
    (hfits : (plan.item value now).Fits) :
    ∃ data, writeCall key value options now = .ok (.put key data plan.ttl) ∧
      ∀ n, (plan.item value now).Shown ⟨data, n, deadlineOf plan.ttl now⟩ := by
  have httl := (ExpirationOptions.plan_spec (Instant.isAware_of_utc hutc) hplan).1
  obtain ⟨data, hdata⟩ := ExpirationPlan.exists_encode hutc hplan hfits
  obtain ⟨absolute, hutcBound, hdecode⟩ := Entry.decode_encode hdata
  obtain ⟨hus, hoffset⟩ := Entry.mapM_inUtc_eq_ok hutcBound
  refine ⟨data, ?_, fun n => ⟨⟨_, hdecode, rfl, hus, fun bound hbound => ?_, rfl⟩, rfl⟩⟩
  · simp only [writeCall, hplan, Chain.mapError_ok, Chain.ok_bind, hdata, storing_of_isPositive httl]
    rfl
  · exact Instant.isAware_of_utc (hoffset bound hbound)

end

/-! ## Commands -/

namespace Command

variable {command : Command} {cache : Cache} {now : Instant} {key : Text} {work : Work}
  {fault : CacheFault} {e : InvalidKey}

theorem request_eq_ok (hkey : cache.storeKey command.key = .ok key)
    (hwork : command.work key now = .ok work) :
    command.request cache now = .ok ⟨command.operation, key, work⟩ := by
  simp only [request, hkey, Chain.mapError_ok, Chain.ok_bind, hwork]
  rfl

theorem request_of_invalidKey (hkey : cache.storeKey command.key = .error e) :
    command.request cache now = .error (.invalidKey e) := by
  rw [request, hkey]
  rfl

theorem request_of_fault (hkey : cache.storeKey command.key = .ok key)
    (hwork : command.work key now = .error fault) : command.request cache now = .error fault := by
  simp only [request, hkey, Chain.mapError_ok, Chain.ok_bind, hwork]
  rfl

end Command

/-- A cache at rest and a dictionary that cannot be told apart by commands. -/
structure Agrees (cache : Cache) (s : LiveCache MemoryStore) (d : Dictionary) : Prop where
  mirrors : ∀ {raw key}, cache.storeKey raw = .ok key →
    Mirrors d.now (slot? s.store d.now key) (d.items.get? raw)
  valid : Valid s.store
  utc : d.now.offset = some .utc
  now : s.now = d.now
  cache : s.cache = cache
  atRest : s.AtRest

namespace Agrees

variable {cache : Cache} {s s' : LiveCache MemoryStore} {d d' : Dictionary} {command : Command}
  {key : Text} {x? : Option Item}

theorem aware (h : Agrees cache s d) : d.now.isAware := Instant.isAware_of_utc h.utc

/-- Two application keys do not get in each other's way. -/
theorem leave {store : MemoryStore} {raw : Text} (h : Agrees cache s d)
    (hkey : cache.storeKey raw = .ok key) (hs : s.Settled store s')
    (hleaves : Leaves key d.now s.store x? store) (hnow : d'.now = d.now)
    (hitems : ∀ k, d'.items.get? k = if raw = k then x? else d.items.get? k) :
    Agrees cache s' d' where
  cache := hs.cache.trans h.cache
  now := (hs.now.trans h.now).trans hnow.symm
  utc := hnow ▸ h.utc
  atRest := hs.atRest
  valid := hs.store.symm ▸ hleaves.valid
  mirrors {raw' key'} hkey' := by
    rw [hs.store, hnow, hitems]
    split
    · rename_i heq
      subst heq
      obtain rfl : key = key' := Except.ok.inj (hkey.symm.trans hkey')
      exact hleaves.here
    · rename_i hne
      have hapart : key' ≠ key := by
        intro heq
        subst heq
        exact hne (Cache.storeKey_injective hkey hkey')
      rw [hleaves.elsewhere hapart]
      exact h.mirrors hkey'

/-- A command that is not refused. -/
theorem call_of_work {work : Work} {payload? : Option Bytes} (h : Agrees cache s d)
    (hkey : cache.storeKey command.key = .ok key) (hwork : command.work key d.now = .ok work)
    (hrank : work.rank ≤ 5) (hpayload : (work.run key d.now s.store).1 = .ok payload?)
    (hleaves : Leaves key d.now s.store x? (work.run key d.now s.store).2) (hnow : d'.now = d.now)
    (hitems : ∀ k, d'.items.get? k = if command.key = k then x? else d.items.get? k) :
    (s.call command true).1 = some (command.answer (.ok payload?)) ∧
      Agrees cache (s.call command true).2 d' := by
  have hrequest := Command.request_eq_ok hkey hwork
  rw [← h.cache, ← h.now] at hrequest
  obtain ⟨hanswer, hsettled⟩ := LiveCache.call_of_ok h.atRest hrequest hrank
  rw [h.now] at hanswer hsettled
  rw [hpayload] at hanswer
  exact ⟨hanswer, h.leave hkey hsettled hleaves hnow hitems⟩

/-- A command that is refused. -/
theorem call_of_fault {fault : CacheFault} (h : Agrees cache s d)
    (hrequest : command.request cache d.now = .error fault) :
    (s.call command true).1 = some (command.answer (.error fault)) ∧
      Agrees cache (s.call command true).2 d := by
  rw [← h.cache, ← h.now] at hrequest
  obtain ⟨hanswer, hsettled⟩ := LiveCache.call_of_error h.atRest hrequest
  refine ⟨hanswer, ?_⟩
  exact {
    cache := hsettled.cache.trans h.cache
    now := hsettled.now.trans h.now
    utc := h.utc
    atRest := hsettled.atRest
    valid := hsettled.store.symm ▸ h.valid
    mirrors := fun hkey => hsettled.store.symm ▸ h.mirrors hkey }

theorem call_read (h : Agrees cache s d) (hkey : cache.storeKey command.key = .ok key)
    (hwork : command.work key d.now = .ok (.read .fetching))
    (hfits : ∀ row ∈ (d.touch command.key).items, row.2.Fits) :
    (s.call command true).1 =
        some (command.answer (.ok ((d.live? command.key).map Item.payload))) ∧
      Agrees cache (s.call command true).2 (d.touch command.key) := by
  have hlegal := Cache.isLegal_storeKey hkey
  have hmirrors := h.mirrors hkey
  have hrank : (Work.read .fetching).rank ≤ 5 := by decide
  cases hlive : d.live? command.key with
  | none =>
    have hdead := Dictionary.live?_eq_none_iff.1 hlive
    obtain ⟨hpayload, hleaves⟩ := ReadStage.run_of_dead h.valid hlegal h.utc hmirrors hdead
    rw [Dictionary.touch_of_none hlive]
    refine h.call_of_work hkey hwork hrank hpayload hleaves rfl fun k => ?_
    split
    · rename_i heq
      rw [heq]
    · rfl
  | some x =>
    rw [Dictionary.touch_of_some hlive] at hfits ⊢
    obtain ⟨hitem, hx⟩ := Dictionary.live?_eq_some_iff.1 hlive
    rw [hitem] at hmirrors
    cases hslot : slot? s.store d.now key with
    | none =>
      rw [hslot] at hmirrors
      cases hmirrors with
      | gone hdead => exact absurd hx (Bool.eq_false_iff.1 (hdead x rfl))
    | some slot =>
      rw [hslot] at hmirrors
      cases hmirrors with
      | shown hshown =>
        obtain ⟨hpayload, hleaves⟩ :=
          ReadStage.run_of_live h.valid hlegal h.utc hslot hshown hx (Dictionary.fits_of_put hfits)
        exact h.call_of_work hkey hwork hrank hpayload hleaves rfl fun k =>
          Dictionary.get?_items_put

theorem call_set {raw : Text} {value : Bytes} {options : ExpirationOptions} {plan : ExpirationPlan}
    (h : Agrees cache s d) (hkey : cache.storeKey raw = .ok key)
    (hplan : options.plan d.now = .ok plan) (hfits : (plan.item value d.now).Fits) :
    (s.call (.set raw value options) true).1 = some (.ok .done) ∧
      Agrees cache (s.call (.set raw value options) true).2
        (d.put raw (plan.item value d.now)) := by
  obtain ⟨data, hcall, hshown⟩ := Command.exists_writeCall key h.utc hplan hfits
  have hpos := (ExpirationOptions.plan_spec h.aware hplan).1
  obtain ⟨hpayload, hleaves⟩ := Work.run_put h.valid (Cache.isLegal_storeKey hkey) hpos
    (hfits.room h.utc rfl) hshown
  have hwork : (Command.set raw value options).work key d.now =
      .ok (.write (.put key data plan.ttl)) := Chain.map_eq_ok.2 ⟨_, hcall, rfl⟩
  exact h.call_of_work hkey hwork (Nat.zero_le 5) hpayload hleaves rfl fun k =>
    Dictionary.get?_items_put

theorem call_remove {raw : Text} (h : Agrees cache s d) (hkey : cache.storeKey raw = .ok key) :
    (s.call (.remove raw) true).1 = some (.ok .done) ∧
      Agrees cache (s.call (.remove raw) true).2 (d.erase raw) := by
  obtain ⟨hpayload, hleaves⟩ := Work.run_delete d.now h.valid (Cache.isLegal_storeKey hkey)
  exact h.call_of_work hkey rfl (Nat.zero_le 5) hpayload hleaves rfl fun k =>
    Dictionary.get?_items_erase

/-- One command, whatever becomes of it. -/
theorem call (h : Agrees cache s d)
    (hfits : ∀ row ∈ (d.call cache.encoding command).2.items, row.2.Fits) :
    (s.call command true).1 = some (d.call cache.encoding command).1 ∧
      Agrees cache (s.call command true).2 (d.call cache.encoding command).2 := by
  cases hencode : cache.encoding.encode command.key with
  | error e =>
    have hkey : cache.storeKey command.key = .error e := by
      rw [Cache.storeKey, hencode]
      rfl
    have hcall : d.call cache.encoding command =
        (Dictionary.refusal (.invalidKey e) command, d) := by
      rw [Dictionary.call, hencode]
    obtain ⟨hanswer, hagrees⟩ := h.call_of_fault (Command.request_of_invalidKey hkey)
    rw [hcall, hanswer]
    exact ⟨by cases command <;> rfl, hagrees⟩
  | ok encoded =>
    have hkey : cache.storeKey command.key = .ok (cache.underPrefix encoded) :=
      Cache.storeKey_eq_ok_iff.2 ⟨encoded, hencode, rfl⟩
    have hcall : d.call cache.encoding command = d.perform command := by
      rw [Dictionary.call, hencode]
    rw [hcall] at hfits ⊢
    cases command with
    | get raw => exact h.call_read hkey rfl hfits
    | refresh raw => exact h.call_read hkey rfl hfits
    | remove raw => exact h.call_remove hkey
    | tryGet raw buffer =>
      cases hlive : d.live? raw with
      | some x =>
        simp only [Dictionary.perform, hlive] at hfits ⊢
        obtain ⟨hanswer, hagrees⟩ := h.call_read hkey rfl hfits
        rw [hanswer]
        exact ⟨by rw [Command.key, hlive]; rfl, hagrees⟩
      | none =>
        simp only [Dictionary.perform, hlive] at hfits ⊢
        have htouch : d.touch raw = d := Dictionary.touch_of_none hlive
        obtain ⟨hanswer, hagrees⟩ := h.call_read hkey rfl (htouch.symm ▸ hfits)
        rw [hanswer]
        exact ⟨by rw [Command.key, hlive]; rfl, htouch ▸ hagrees⟩
    | set raw value options =>
      cases hplan : options.plan d.now with
      | error fault =>
        simp only [Dictionary.perform, hplan]
        refine h.call_of_fault (Command.request_of_fault hkey ?_)
        simp only [Command.work, Command.writeCall, hplan]
        rfl
      | ok plan =>
        simp only [Dictionary.perform, hplan] at hfits ⊢
        exact h.call_set hkey hplan (Dictionary.fits_of_put hfits)

/-- Time passing. -/
theorem wait {time : Duration} (h : Agrees cache s d) (hforward : 0 ≤ time.us) :
    Agrees cache (s.step (.advance time)) (d.wait time) := by
  simp only [LiveCache.step, Dictionary.wait, h.now]
  cases hadd : d.now.add time with
  | error fault => exact h
  | ok now =>
    have hle : d.now.utcUs ≤ now.utcUs := by
      rw [Instant.utcUs_add hadd]
      omega
    exact {
      mirrors := fun hkey => (h.mirrors hkey).later h.valid hle
      valid := h.valid
      utc := (Instant.add_eq_ok_iff.1 hadd).2.trans h.utc
      now := rfl
      cache := h.cache
      atRest := h.atRest }

theorem start (cache : Cache) (backend : Backend) {now : Instant} (hutc : now.offset = some .utc) :
    Agrees cache { cache, backend, store := default, now } { now } where
  mirrors _ := .gone fun x hx => by cases hx
  valid := MemoryStore.valid_default
  utc := hutc
  now := rfl
  cache := rfl
  atRest _ := rfl

end Agrees

/-! ## Runs -/

namespace LiveCache

/-- Lets time pass, and then performs a command while nobody else uses the cache. -/
def round (s : LiveCache MemoryStore) (r : Round) :
    Option (Except CacheFault Answer) × LiveCache MemoryStore :=
  (s.step (.advance r.1)).call r.2 true

/-- The answers to one command after another. -/
def answers : LiveCache MemoryStore → List Round → List (Option (Except CacheFault Answer))
  | _, [] => []
  | s, r :: rounds => (s.round r).1 :: answers (s.round r).2 rounds

theorem answers_of_agrees {cache : Cache} {s : LiveCache MemoryStore} {d : Dictionary}
    {rounds : List Round} (h : Agrees cache s d) (hforward : ∀ r ∈ rounds, 0 ≤ r.1.us)
    (hfits : d.Fits cache.encoding rounds) :
    s.answers rounds = (d.answers cache.encoding rounds).map some := by
  induction rounds generalizing s d with
  | nil => rfl
  | cons r rounds ih =>
    obtain ⟨hfirst, hrest⟩ := hfits
    obtain ⟨hanswer, hagrees⟩ := (h.wait (hforward r List.mem_cons_self)).call hfirst
    have hrounds := ih hagrees (fun r hr => hforward r (List.mem_cons_of_mem _ hr)) hrest
    rw [answers, Dictionary.answers, List.map_cons]
    exact congrArg₂ List.cons hanswer hrounds

/-- **A cache of one's own is a plain dictionary.** Commands one after another, with time passing in
between, get the answers of the dictionary. -/
theorem answers_eq (cache : Cache) (backend : Backend) {now : Instant} {rounds : List Round}
    (hutc : now.offset = some .utc) (hforward : ∀ r ∈ rounds, 0 ≤ r.1.us)
    (hfits : Dictionary.Fits cache.encoding { now } rounds) :
    answers { cache, backend, store := default, now } rounds =
      (Dictionary.answers cache.encoding { now } rounds).map some :=
  answers_of_agrees (.start cache backend hutc) hforward hfits

/-- A window of a second and a bound after two: reads keep the entry alive up to the bound, at which
its time to live is over. In between another key is refreshed and a write is refused. -/
theorem answers_eq_upToBound :
    (answers
        { cache := { encoding := .punycode, keyPrefix := "app", prefix_legal := .inr (by decide) },
          backend := ⟨"demo", false⟩, store := default, now := ⟨0, some .utc, by decide⟩ }
        [(⟨0, by decide⟩, .set "k" [0x76]
            ⟨some ⟨2000000, some .utc, by decide⟩, none, some ⟨1000000, by decide⟩⟩),
          (⟨900000, by decide⟩, .get "k"),
          (⟨0, by decide⟩, .set "k" [0x77] ⟨none, none, some .zero⟩),
          (⟨600000, by decide⟩, .tryGet "k" [0x2D]),
          (⟨499999, by decide⟩, .refresh "j"),
          (⟨1, by decide⟩, .get "k")]).map (·.bind Except.toOption) =
      [some .done, some (.payload (some [0x76])), none, some (.buffer true [0x2D, 0x76]),
        some .done, some (.payload none)] := by
  rw [answers_eq _ _ rfl (by decide) (by decide +kernel)]
  decide +kernel

end LiveCache

end SlidingCache
