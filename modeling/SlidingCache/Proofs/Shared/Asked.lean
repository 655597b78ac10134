import SlidingCache.Proofs.Key.Encoding
import SlidingCache.Proofs.Shared.Environment
import SlidingCache.Proofs.Shared.Fleet

/-!
# What caches ask of their store

Whatever happens to a cache, and whatever its store answers, what it has under way is apt
(`Request.IsApt`): the key is the store key of some application key, a time to live is positive, and
a value that is written has a header that names an end exactly if the write has a time to live. The
first is settled when the command is checked; the others also have to be so for a renewal, which
writes back what it has fetched.
-/

namespace SlidingCache

/-! ## Headers -/

namespace Entry

/-- The fields of the header that a stored value begins with. -/
def fields? (value : Bytes) : Option (List (Text × Json)) := do
  let (line, _) ← splitLine value
  match ← Json.ofBytes? line with
  | .obj fields => some fields
  | _ => none

/-- Whether a header names a bound or a window. -/
def namesEnd (fields : List (Text × Json)) : Bool :=
  (Json.get? absoluteField fields).isSome || (Json.get? slidingField fields).isSome

/-- The value has a header, and it names an end if and only if `ends` says so. -/
def Tells (value : Bytes) (ends : Bool) : Prop :=
  ∃ fields, fields? value = some fields ∧ namesEnd fields = ends

variable {e : Entry} {value : Bytes}

theorem tells_encode (h : e.encode = .ok value) :
    Tells value (e.absolute.isSome || e.sliding.isSome) := by
  obtain ⟨absolute, text, habsolute, htext, rfl⟩ := encode_eq_ok_iff.1 h
  have hbound : absolute.isSome = e.absolute.isSome := by
    have hsame := congrArg Option.isSome (mapM_inUtc_eq_ok habsolute).1
    rwa [Option.isSome_map, Option.isSome_map] at hsame
  obtain ⟨fields, hfields⟩ : ∃ fields, header absolute e.sliding = .obj fields := ⟨_, rfl⟩
  refine ⟨fields, ?_, ?_⟩
  · simp [fields?, splitLine_line htext, Json.ofBytes?_octets isExact_header htext, hfields]
  · rw [namesEnd, get?_absoluteField hfields, get?_slidingField hfields, Option.isSome_map,
      Option.isSome_map, hbound]

theorem fields?_of_decode (h : decode value = .ok e) : ∃ fields, fields? value = some fields ∧
    readSliding (Json.get? slidingField fields) = .ok e.sliding := by
  unfold decode at h
  split at h
  · rename_i line payload hline
    split at h
    · rename_i json hjson
      split at h
      · rename_i fields
        obtain ⟨_, -, h⟩ := Chain.bind_eq_ok.1 h
        obtain ⟨sliding, hsliding, ⟨⟩⟩ := Chain.bind_eq_ok.1 h
        exact ⟨fields, by simp [fields?, hline, hjson], hsliding⟩
      · cases h
    · cases h
  · cases h

/-- An entry with a window has a header that says so. -/
theorem tells_of_decode (h : decode value = .ok e) (hsliding : e.sliding.isSome) :
    Tells value true := by
  obtain ⟨fields, hfields, hread⟩ := fields?_of_decode h
  refine ⟨fields, hfields, ?_⟩
  cases hget : Json.get? slidingField fields with
  | none =>
    rw [hget] at hread
    rw [← Except.ok.inj hread] at hsliding
    cases hsliding
  | some v => simp [namesEnd, hget]

end Entry

theorem Held.Renews.tells {found : Held} {now : Instant} {ttl : Duration}
    (h : found.Renews now ttl) : Entry.Tells found.value true := by
  obtain ⟨entry, hdecode, hrenewal, -⟩ := h
  obtain ⟨window, hwindow, -⟩ := Option.map_eq_some_iff.1 hrenewal
  exact Entry.tells_of_decode hdecode (by rw [hwindow]; rfl)

/-! ## Calls -/

/-- A call on a key such as a cache makes it. -/
structure StoreCall.IsApt (call : StoreCall) (key : Text) : Prop where
  key : call.key = key
  ttl : ∀ ttl ∈ call.ttl?, ttl.isPositive
  value : ∀ value ∈ call.value?, Entry.Tells value call.ttl?.isSome

namespace StoreCall

variable {key : Text} {value : Bytes} {n : Revision}

theorem isApt_get : (get key).IsApt key where
  key := rfl
  ttl _ h := by cases h
  value _ h := by cases h

theorem isApt_delete {expected : Option Revision} : (delete key expected).IsApt key where
  key := rfl
  ttl _ h := by cases h
  value _ h := by cases h

theorem isApt_put {ttl : Option Duration} (hpos : ∀ d ∈ ttl, d.isPositive)
    (hvalue : Entry.Tells value ttl.isSome) : (put key value ttl).IsApt key where
  key := rfl
  ttl := hpos
  value v hv := by
    cases hv
    exact hvalue

theorem isApt_renewal {found : Held} {now : Instant} {ttl : Duration} (h : found.Renews now ttl) :
    (update key found.value found.revision (some ttl)).IsApt key where
  key := rfl
  ttl d hd := by
    obtain ⟨_, _, _, hpos⟩ := h
    cases hd
    exact hpos
  value v hv := by
    cases hv
    exact h.tells

end StoreCall

/-- A read goes on only with apt calls. -/
theorem ReadStage.isApt_of_resume {key : Text} {now : Instant} {stage next : ReadStage}
    {reply : Except StoreFault (stage.call key).Reply}
    (h : (resume key now stage reply).next = .inl next) : (next.call key).IsApt key := by
  have hleads : Leads key now stage reply (.inl next) := h ▸ leads_resume stage reply
  cases hleads with
  | lapsed | lapsedAgain => exact StoreCall.isApt_delete
  | lost => exact StoreCall.isApt_get
  | due _ hrenews | dueAgain hrenews => exact StoreCall.isApt_renewal hrenews

/-- An entry is to have an end if there is a time to live, and only then. -/
theorem ExpirationOptions.isSome_ttl {o : ExpirationOptions} {now : Instant} {plan : ExpirationPlan}
    (h : o.plan now = .ok plan) :
    plan.ttl.isSome = (plan.absolute.isSome || plan.sliding.isSome) := by
  obtain ⟨⟨⟩, -, h⟩ := Chain.bind_eq_ok.1 h
  obtain ⟨bound, -, h⟩ := Chain.bind_eq_ok.1 h
  cases bound with
  | none =>
    cases h
    rfl
  | some bound =>
    obtain ⟨ttl, -, ⟨⟩⟩ := Chain.bind_eq_ok.1 h
    rfl

namespace Command

variable {command : Command} {cache : Cache} {key : Text} {start : Instant} {r : Request}

theorem isApt_of_writeCall {value : Bytes} {options : ExpirationOptions} {call : StoreCall}
    (h : writeCall key value options start = .ok call) : call.IsApt key := by
  obtain ⟨plan, hplan, h⟩ := Chain.bind_eq_ok.1 h
  obtain ⟨data, hdata, ⟨⟩⟩ := Chain.bind_eq_ok.1 h
  have hends := ExpirationOptions.isSome_ttl (Chain.mapError_eq_ok.1 hplan)
  have htells := hends ▸ Entry.tells_encode (Chain.mapError_eq_ok.1 hdata)
  rcases storing_cases key data plan.ttl with ⟨hpos, hput⟩ | hdelete
  · rw [hput]
    exact StoreCall.isApt_put hpos htells
  · rw [hdelete]
    exact StoreCall.isApt_delete

end Command

/-! ## Requests -/

/-- A request such as a cache has under way. -/
structure Request.IsApt (r : Request) (cache : Cache) : Prop where
  key : ∃ raw, cache.storeKey raw = .ok r.key
  call : r.call.IsApt r.key

theorem Command.isApt_of_request {command : Command} {cache : Cache} {start : Instant} {r : Request}
    (h : command.request cache start = .ok r) : r.IsApt cache := by
  obtain ⟨key, hkey, h⟩ := Chain.bind_eq_ok.1 h
  obtain ⟨work, hwork, ⟨⟩⟩ := Chain.bind_eq_ok.1 h
  refine ⟨⟨command.key, Chain.mapError_eq_ok.1 hkey⟩, ?_⟩
  cases command with
  | get k | refresh k | tryGet k buffer =>
    cases hwork
    exact StoreCall.isApt_get
  | set k value options =>
    obtain ⟨call, hcall, rfl⟩ := Chain.map_eq_ok.1 hwork
    exact isApt_of_writeCall hcall
  | remove k =>
    cases hwork
    exact StoreCall.isApt_delete

theorem Request.IsApt.resume {r : Request} {cache : Cache} {now : Instant} {work : Work}
    {reply : Except StoreFault r.call.Reply} (h : r.IsApt cache)
    (hnext : (r.work.resume r.key now reply).next = .inl work) :
    Request.IsApt { r with work } cache := by
  refine ⟨h.key, ?_⟩
  rcases r with ⟨operation, key, before⟩
  obtain ⟨stage, stage', rfl, rfl⟩ := exists_stage_of_resume hnext
  exact ReadStage.isApt_of_resume (resume_read hnext)

/-- Whether an event is one of the cache and its callers, and not of someone else. -/
def Event.isOwn : Event → Bool
  | .rival _ => false
  | _ => true

namespace LiveCache

variable {σ : Type} {s : LiveCache σ} {e : Event}

/-- What is under way is apt. -/
def IsApt (s : LiveCache σ) : Prop :=
  ∀ (c : Nat) (call : Call) (r : Request), s.calls[c]? = some call → call.request? = some r →
    r.IsApt s.cache

/-- What a cache asks of its store is apt. -/
theorem IsApt.access {a : Access σ} (h : s.IsApt) (he : e.isOwn) (ha : s.access? e = some a) :
    (∃ raw, s.cache.storeKey raw = .ok a.call.key) ∧ a.call.IsApt a.call.key := by
  cases e with
  | perform c =>
    simp only [access?] at ha
    split at ha
    · rename_i command hasTime request hc
      cases ha
      have hr := h _ _ _ hc rfl
      rw [hr.call.key]
      exact ⟨hr.key, hr.call⟩
    · cases ha
  | rival call => cases he
  | _ => cases ha

theorem IsApt.step [Store σ] (h : s.IsApt) : (s.step e).IsApt := by
  have hrequests : s.Requests fun _ r => r.IsApt s.cache := h
  rw [IsApt, cache_step]
  exact hrequests.step Command.isApt_of_request fun hr hnext => hr.resume hnext

end LiveCache

/-! ## Fleets -/

namespace Fleet

variable {σ : Type} {s : Fleet σ} {i : Nat} {e : Event} {events : List (Nat × Event)}

def IsApt (s : Fleet σ) : Prop :=
  ∀ (i : Nat) (cache : LiveCache σ), s.caches[i]? = some cache → cache.IsApt

theorem isApt_start {store : σ} {now : Instant} {caches : List (Cache × Backend)} :
    (start store now caches).IsApt := by
  intro i cache hi
  obtain ⟨p, -, rfl⟩ := Option.map_eq_some_iff.1 (List.getElem?_map.symm.trans hi)
  intro c call r hc
  cases hc

/-- What a cache asks of the store is apt. -/
theorem IsApt.access {cache : LiveCache σ} {a : Access σ} (h : s.IsApt) (he : e.isOwn)
    (hi : s.caches[i]? = some cache) (ha : s.access? i e = some a) :
    (∃ raw, cache.cache.storeKey raw = .ok a.call.key) ∧ a.call.IsApt a.call.key := by
  have hlent : (s.lend cache).IsApt := h i cache hi
  rw [access?, hi] at ha
  exact hlent.access he ha

variable [Store σ]

theorem IsApt.step (h : s.IsApt) : (s.step i e).IsApt := by
  intro j cache' hj
  obtain ⟨cache, hcache, ⟨-, rfl⟩ | ⟨-, rfl⟩⟩ := exists_cache_of_step hj
  · exact h j _ hcache
  · have hlent : (s.lend cache).IsApt := h j cache hcache
    exact hlent.step

theorem IsApt.run (h : s.IsApt) : (s.run events).IsApt := by
  induction events generalizing s with
  | nil => exact h
  | cons e later ih => exact ih h.step

end Fleet

end SlidingCache
