import SlidingCache.Proofs.Live.Calls
import SlidingCache.Proofs.Shared.Accesses
import SlidingCache.Proofs.Time.Instant

/-!
# What a request knows

A read comes back to the store with what it has found before, and in between others may have used
the store. It may still rely on this: the revision that it found either is gone or holds what it
held (`Known`), because revisions are never given twice, and a bound that had passed has passed for
good. So whatever a request asks of the store is harmless (`Request.Informed.harmless`).
-/

namespace SlidingCache

open LawfulStore

variable {σ : Type} [Store σ] [LawfulStore σ]
variable {s t : σ} {now now' : Instant} {key : Text} {call : StoreCall}

/-! ## Knowing a revision -/

/-- The revision was given, and nothing else is live under it. -/
structure Known (s : σ) (now : Instant) (key : Text) (found : Held) : Prop where
  given : found.revision ≤ lastRevision s
  holds : ∀ {x}, slot? s now key = some x → x.revision = found.revision → x.value = found.value

theorem known_of_slot? {x : Slot} (h : Valid s) (hx : slot? s now key = some x) :
    Known s now key x.held where
  given := revision_le h hx
  holds hy _ := by rw [hx] at hy; cases hy; rfl

theorem Known.wait {found : Held} (h : Known s now key found) (hs : Valid s)
    (hle : now.utcUs ≤ now'.utcUs) : Known s now' key found where
  given := h.given
  holds hx := by
    rcases later key hs hle with hsame | ⟨hnone, -⟩
    · exact h.holds (hsame ▸ hx)
    · rw [hnone] at hx; cases hx

theorem Known.perform {found : Held} (h : Known s now key found) (hs : Valid s) :
    Known (Store.perform now call s).2 now key found := by
  have hp := performed now call hs
  generalize (Store.perform now call s).2 = t at hp ⊢
  generalize (Store.perform now call s).1 = reply at hp
  generalize hview : slot? t now = view at hp
  generalize hlast : lastRevision t = last at hp
  cases hp with
  | refused _ hle => exact ⟨hlast ▸ Int.le_trans h.given hle, fun hx => h.holds (hview ▸ hx)⟩
  | got => exact ⟨hlast ▸ h.given, fun hx => h.holds (hview ▸ hx)⟩
  | @put k value ttl _ _ hlt | @updated k value expected ttl _ _ hlt =>
    refine ⟨hlast ▸ Int.le_trans h.given (Int.le_of_lt hlt), fun {x} hx hrev => ?_⟩
    rw [hview] at hx
    by_cases hk : key = k
    · -- the new revision was not given before
      subst hk
      rw [View.set_self] at hx
      cases hx
      exact absurd h.given (Int.not_le.2 (Int.lt_of_lt_of_le hlt (Int.le_of_eq hrev)))
    · rw [View.set_of_ne hk] at hx
      exact h.holds hx hrev
  | @deleted k expected =>
    refine ⟨hlast ▸ h.given, fun {x} hx hrev => ?_⟩
    rw [hview] at hx
    by_cases hk : key = k
    · subst hk
      rw [View.set_self] at hx
      cases hx
    · rw [View.set_of_ne hk] at hx
      exact h.holds hx hrev

/-! ## Reads -/

/-- What a read relies on at a stage. -/
def ReadStage.Informed (s : σ) (now : Instant) (key : Text) : ReadStage → Prop
  | fetching | refetching _ => True
  | renewing _ found _ _ => Known s now key found
  | deleting found | deletingAgain _ found => Known s now key found ∧ HasLapsed found.value now

namespace ReadStage

theorem informed_of_renew {notices payload found entry last} {next : ReadStage}
    (hknown : Known s now key found)
    (h : (renew notices payload found entry last now).next = .inl next) :
    next.Informed s now key := by
  unfold renew at h
  repeat' split at h
  all_goals first | cases h; exact hknown | cases h

theorem hasLapsed_of_isExpired {value : Bytes} {entry : Entry}
    (hdecode : Entry.decode value = .ok entry) (h : entry.isExpired now = .ok true) :
    HasLapsed value now := by
  unfold Entry.isExpired at h
  split at h
  · cases h
  · rename_i bound hbound
    obtain ⟨order, hcompare, horder⟩ := Chain.bind_eq_ok.1 h
    obtain rfl : order = .gt := by cases order <;> first | rfl | cases horder
    have hpast := (Instant.compare?_eq_ok_iff.1 hcompare).2
    exact ⟨entry, bound, hdecode, hbound, Int.compare_eq_gt.1 hpast⟩

theorem informed_of_fetched {found? : Option Held} {next : ReadStage}
    (hknown : ∀ found ∈ found?, Known s now key found)
    (h : (fetched now found?).next = .inl next) : next.Informed s now key := by
  unfold fetched at h
  split at h
  · cases h
  · rename_i found
    have hknown := hknown found rfl
    split at h
    · cases h
    · rename_i entry hdecode
      split at h
      · cases h
      · rename_i hexpired
        cases h
        exact ⟨hknown, hasLapsed_of_isExpired hdecode hexpired⟩
      · exact informed_of_renew hknown h

theorem informed_of_refetched {payload : Bytes} {found? : Option Held} {next : ReadStage}
    (hknown : ∀ found ∈ found?, Known s now key found)
    (h : (refetched payload now found?).next = .inl next) : next.Informed s now key := by
  unfold refetched at h
  split at h
  · cases h
  · rename_i found
    have hknown := hknown found rfl
    split at h
    · cases h
    · rename_i entry hdecode
      split at h
      · cases h
      · rename_i hexpired
        cases h
        exact ⟨hknown, hasLapsed_of_isExpired hdecode hexpired⟩
      · exact informed_of_renew hknown h

/-- What a read finds it knows from then on. -/
theorem known_of_reply {found : Held} (hs : Valid s)
    (h : (Store.perform now (.get key) s).1 = .ok (some found)) :
    Known (Store.perform now (.get key) s).2 now key found := by
  have hp := performed now (.get key) hs
  rw [h] at hp
  generalize hview : slot? (Store.perform now (.get key) s).2 now = view at hp
  generalize hlast : lastRevision (Store.perform now (.get key) s).2 = last at hp
  generalize hreply : (Except.ok (some found) : Except StoreFault (StoreCall.Reply (.get key))) =
    reply at hp
  cases hp with
  | refused => cases hreply
  | got =>
    obtain ⟨x, hx, rfl⟩ := Option.map_eq_some_iff.1 (Except.ok.inj hreply).symm
    exact known_of_slot? (valid_perform hs) (hview ▸ hx)

/-- After a failure a read goes on only to fetch its entry once more. -/
theorem informed_of_error {stage next : ReadStage} {fault : StoreFault}
    (h : (resume key now stage (.error fault)).next = .inl next) : next.Informed s now key := by
  cases stage with
  | fetching | refetching payload => cases h
  | deleting found | deletingAgain payload found =>
    simp only [resume] at h
    split at h <;> cases h
  | renewing payload found ttl last =>
    cases fault with
    | conflict =>
      cases last with
      | true => cases h
      | false => cases h; exact trivial
    | _ => cases h

/-- The answer of the store keeps a read informed. -/
theorem informed_of_performed {stage next : ReadStage} (hs : Valid s)
    (h : (resume key now stage (Store.perform now (stage.call key) s).1).next = .inl next) :
    next.Informed (Store.perform now (stage.call key) s).2 now key := by
  cases hreply : (Store.perform now (stage.call key) s).1 with
  | error e => exact informed_of_error (hreply ▸ h)
  | ok reply =>
    rw [hreply] at h
    cases stage with
    | fetching =>
      exact informed_of_fetched (fun found hfound => known_of_reply hs (hfound ▸ hreply)) h
    | refetching payload =>
      exact informed_of_refetched (fun found hfound => known_of_reply hs (hfound ▸ hreply)) h
    | deleting found | deletingAgain payload found | renewing payload found ttl last => cases h

end ReadStage

/-! ## Requests -/

/-- What a request relies on. A write comes straight from the caller and is not conditional. -/
def Request.Informed (s : σ) (now : Instant) (r : Request) : Prop :=
  match r.work with
  | .read stage => stage.Informed s now r.key
  | .write call => (∃ value ttl, call = .put r.key value ttl) ∨ call = .delete r.key none

namespace Request

variable {r : Request}

theorem Informed.harmless (h : r.Informed s now) : Harmless s now r.call := by
  rcases r with ⟨operation, key, work⟩
  cases work with
  | read stage =>
    cases stage with
    | fetching | refetching => exact trivial
    | renewing payload found ttl last => exact fun x hx hrev => Known.holds h hx hrev
    | deleting found | deletingAgain payload found =>
      obtain ⟨hknown, hlapsed⟩ := h
      exact fun x hx hrev => (hknown.holds hx hrev).symm ▸ hlapsed
  | write call =>
    rcases h with ⟨value, ttl, hcall⟩ | hcall
    · exact (hcall : call = _) ▸ trivial
    · exact (hcall : call = _) ▸ trivial

theorem Informed.wait (h : r.Informed s now) (hs : Valid s) (hle : now.utcUs ≤ now'.utcUs) :
    r.Informed s now' := by
  rcases r with ⟨operation, key, work⟩
  cases work with
  | read stage =>
    cases stage with
    | fetching | refetching => exact trivial
    | renewing payload found ttl last => exact Known.wait h hs hle
    | deleting found | deletingAgain payload found => exact ⟨h.1.wait hs hle, h.2.mono hle⟩
  | write call => exact h

theorem Informed.perform (h : r.Informed s now) (hs : Valid s) :
    r.Informed (Store.perform now call s).2 now := by
  rcases r with ⟨operation, key, work⟩
  cases work with
  | read stage =>
    cases stage with
    | fetching | refetching => exact trivial
    | renewing payload found ttl last => exact Known.perform h hs
    | deleting found | deletingAgain payload found => exact ⟨h.1.perform hs, h.2⟩
  | write call => exact h

theorem informed_of_performed {work : Work} (hs : Valid s)
    (h : (r.work.resume r.key now (Store.perform now r.call s).1).next = .inl work) :
    Informed (Store.perform now r.call s).2 now { r with work } := by
  rcases r with ⟨operation, key, before⟩
  obtain ⟨stage, stage', rfl, rfl⟩ := exists_stage_of_resume h
  exact ReadStage.informed_of_performed hs (resume_read h)

theorem informed_of_error {work : Work} {fault : StoreFault}
    (h : (r.work.resume r.key now (.error fault)).next = .inl work) :
    Informed s now { r with work } := by
  rcases r with ⟨operation, key, before⟩
  obtain ⟨stage, stage', rfl, rfl⟩ := exists_stage_of_resume h
  exact ReadStage.informed_of_error (resume_read h)

end Request

namespace Command

variable {command : Command} {cache : Cache} {start : Instant} {r : Request}

theorem writeCall_eq_ok {value : Bytes} {options : ExpirationOptions}
    (h : writeCall key value options start = .ok call) :
    (∃ data ttl, call = .put key data ttl) ∨ call = .delete key none := by
  obtain ⟨plan, -, h⟩ := Chain.bind_eq_ok.1 h
  obtain ⟨data, -, ⟨⟩⟩ := Chain.bind_eq_ok.1 h
  exact (storing_cases key data plan.ttl).imp (fun hput => ⟨_, _, hput.2⟩) id

/-- A command begins with a fetch, or asks for one write that is not conditional. -/
theorem informed_of_request (h : command.request cache start = .ok r) : r.Informed s now := by
  obtain ⟨key, -, h⟩ := Chain.bind_eq_ok.1 h
  obtain ⟨work, hwork, ⟨⟩⟩ := Chain.bind_eq_ok.1 h
  cases command with
  | get k | refresh k | tryGet k buffer => cases hwork; exact trivial
  | set k value options =>
    obtain ⟨call, hcall, rfl⟩ := Chain.map_eq_ok.1 hwork
    exact writeCall_eq_ok hcall
  | remove k => cases hwork; exact .inr rfl

theorem storeKey_of_request (h : command.request cache start = .ok r) :
    cache.storeKey command.key = .ok r.key := by
  obtain ⟨key, hkey, h⟩ := Chain.bind_eq_ok.1 h
  obtain ⟨work, -, ⟨⟩⟩ := Chain.bind_eq_ok.1 h
  exact Chain.mapError_eq_ok.1 hkey

end Command

end SlidingCache
