import SlidingCache.Proofs.Live.Opening
import SlidingCache.Proofs.Shared.Fleet

/-!
# One call after another

On a cache at rest a call opens the store if need be and then does its work without a break
(`LiveCache.call_of_ok`), or it is refused at its first turn (`LiveCache.call_of_error`). Either way
the cache is at rest again, and nothing has changed but the store, by what the work has done.
-/

namespace SlidingCache

open LawfulStore

/-! ## Work without a break -/

namespace ReadStage

variable {σ : Type} [Store σ] {key : Text} {now : Instant} {stage next : ReadStage} {store : σ}

theorem run_eq_of_inr {result : Except CacheFault (Option Bytes)}
    (h : (stage.resume key now (Store.perform now (stage.call key) store).1).next = .inr result) :
    stage.run key now store =
      ((stage.resume key now (Store.perform now (stage.call key) store).1).notices, result,
        (Store.perform now (stage.call key) store).2) := by
  rw [run]
  dsimp only
  split
  · rename_i heq
    rw [h] at heq
    cases heq
    rfl
  · rename_i heq
    rw [h] at heq
    cases heq

theorem run_eq_of_inl
    (h : (stage.resume key now (Store.perform now (stage.call key) store).1).next = .inl next) :
    stage.run key now store =
      ((stage.resume key now (Store.perform now (stage.call key) store).1).notices ++
          (next.run key now (Store.perform now (stage.call key) store).2).1,
        (next.run key now (Store.perform now (stage.call key) store).2).2) := by
  rw [run]
  dsimp only
  split
  · rename_i heq
    rw [h] at heq
    cases heq
  · rename_i heq
    rw [h] at heq
    cases heq
    rfl

theorem run_of_inr {result : Except CacheFault (Option Bytes)}
    (h : (stage.resume key now (Store.perform now (stage.call key) store).1).next = .inr result) :
    (stage.run key now store).2 = (result, (Store.perform now (stage.call key) store).2) := by
  rw [run_eq_of_inr h]

theorem run_of_inl
    (h : (stage.resume key now (Store.perform now (stage.call key) store).1).next = .inl next) :
    (stage.run key now store).2 =
      (next.run key now (Store.perform now (stage.call key) store).2).2 := by
  rw [run_eq_of_inl h]

end ReadStage

namespace Work

variable {σ : Type} [Store σ]

/-- What work brings while nobody else uses the store, and the store after it. -/
def run (key : Text) (now : Instant) : Work → σ → Except CacheFault (Option Bytes) × σ
  | read stage, store => (stage.run key now store).2
  | write call, store =>
    (((Store.perform now call store).1.map fun _ => none).mapError .store,
      (Store.perform now call store).2)

variable {key : Text} {now : Instant} {work next : Work} {store : σ}

theorem run_of_inr {result : Except CacheFault (Option Bytes)}
    (h : (work.resume key now (Store.perform now (work.call key) store).1).next = .inr result) :
    work.run key now store = (result, (Store.perform now (work.call key) store).2) := by
  cases work with
  | read stage =>
    apply ReadStage.run_of_inr
    simp only [resume] at h
    cases hnext : (stage.resume key now
        (Store.perform now ((read stage).call key) store).1).next with
    | inl stage' =>
      rw [hnext] at h
      cases h
    | inr result' =>
      rw [hnext] at h
      cases h
      exact hnext
  | write call =>
    refine Prod.ext ?_ rfl
    show ((Store.perform now call store).1.map fun _ => none).mapError .store = result
    have h : ((write call).resume key now (Store.perform now call store).1).next = .inr result := h
    cases hreply : (Store.perform now call store).1 with
    | ok reply =>
      rw [hreply] at h
      cases h
      rfl
    | error fault =>
      rw [hreply] at h
      cases h
      rfl

theorem run_of_inl
    (h : (work.resume key now (Store.perform now (work.call key) store).1).next = .inl next) :
    work.run key now store = next.run key now (Store.perform now (work.call key) store).2 := by
  obtain ⟨stage, stage', rfl, rfl⟩ := Request.exists_stage_of_resume h
  exact ReadStage.run_of_inl (Request.resume_read h)

end Work

/-! ### Other keys -/

section
variable {σ : Type} [Store σ] [LawfulStore σ] {key k : Text} {now : Instant}

theorem ReadStage.key_call (key : Text) (stage : ReadStage) : (stage.call key).key = key := by
  cases stage <;> rfl

/-- A read leaves what is under other keys. -/
theorem ReadStage.slot?_run_of_ne {stage : ReadStage} {store : σ} (hvalid : Valid store)
    (hne : k ≠ key) : slot? (stage.run key now store).2.2 now k = slot? store now k := by
  have hfirst : slot? (Store.perform now (stage.call key) store).2 now k = slot? store now k :=
    slot?_perform_of_ne hvalid (by rw [key_call]; exact hne)
  cases hnext : (stage.resume key now (Store.perform now (stage.call key) store).1).next with
  | inr result => rw [run_of_inr hnext, hfirst]
  | inl next => rw [run_of_inl hnext, slot?_run_of_ne (valid_perform hvalid) hne, hfirst]
termination_by stage.rank
decreasing_by exact rank_resume hnext

theorem Work.slot?_run_of_ne {work : Work} {store : σ} (hvalid : Valid store)
    (hcall : (work.call key).key = key) (hne : k ≠ key) :
    slot? (work.run key now store).2 now k = slot? store now k := by
  cases work with
  | read stage => exact ReadStage.slot?_run_of_ne hvalid hne
  | write call =>
    have hcall : call.key = key := hcall
    exact slot?_perform_of_ne hvalid (by rw [hcall]; exact hne)

end

/-! ## Calls without a break -/

namespace LiveCache

variable {σ : Type} {s : LiveCache σ} {c a : Nat} {command : Command} {r : Request}

/-- Nothing is going on: the store is there, or else nobody is opening it. -/
def AtRest (s : LiveCache σ) : Prop := s.isOpen = false → s.opening = none

/-- What a call leaves behind on a cache at rest. -/
structure Settled (s : LiveCache σ) (store : σ) (s' : LiveCache σ) : Prop where
  cache : s'.cache = s.cache
  now : s'.now = s.now
  store : s'.store = store
  atRest : s'.AtRest

theorem Settled.trans {store store' : σ} {s' s'' : LiveCache σ} (h : s.Settled store s')
    (h' : s'.Settled store' s'') : s.Settled store' s'' where
  cache := h'.cache.trans h.cache
  now := h'.now.trans h.now
  store := h'.store
  atRest := h'.atRest

theorem answer?_of_over {hasTime : Bool} {interruption : Option Interruption}
    {result : Except CacheFault Answer}
    (h : s.calls[c]? = some ⟨command, hasTime, .over result, interruption⟩) :
    s.answer? c = some result := by
  rw [answer?, h]
  rfl

/-! ### The turns of the work -/

section
variable [Store σ] {hasTime : Bool}

theorem perform_of_over {result : Except CacheFault Answer}
    (h : s.calls[c]? = some ⟨command, hasTime, .over result, none⟩) : s.perform c = s := by
  rw [perform, h]

theorem run_perform_of_over {result : Except CacheFault Answer} (n : Nat)
    (h : s.calls[c]? = some ⟨command, hasTime, .over result, none⟩) :
    s.run (List.replicate n (.perform c)) = s := by
  induction n with
  | zero => rfl
  | succ n ih =>
    show (s.perform c).run (List.replicate n (.perform c)) = s
    rw [perform_of_over h]
    exact ih

variable {handle : Handle} (h : s.calls[c]? = some ⟨command, hasTime, .working handle r, none⟩)
include h

theorem calls_perform_of_working : (s.perform c).calls[c]? = some ⟨command, hasTime,
    delivered s.now command handle r (Store.perform s.now r.call s.store).1, none⟩ := by
  rw [perform, h]
  dsimp only
  rw [calls_deliver, if_pos rfl, h]
  rfl

theorem settled_perform (hrest : s.AtRest) :
    s.Settled (Store.perform s.now r.call s.store).2 (s.perform c) := by
  have haccess : s.access? (.perform c) = some ⟨s.store, s.now, r.call⟩ := by rw [access?, h]
  obtain ⟨-, hstore, hnow⟩ := step_of_access? haccess
  refine ⟨cache_step (e := .perform c), hnow, hstore, fun hopen => ?_⟩
  have happart : (Event.perform c).isApart := rfl
  have hopen : s.isOpen = false :=
    (congrArg Option.isSome (handle_step_of_isApart happart)).symm.trans hopen
  exact (opening_step_of_isApart happart).trans (hrest hopen)

/-- A call that has the store does its work, if it is given as many turns as that may take. -/
theorem run_perform {n : Nat} (hrest : s.AtRest) (hpos : 0 < n) (hrank : r.work.rank ≤ n) :
    (s.run (List.replicate n (.perform c))).answer? c =
        some (command.answer (r.work.run r.key s.now s.store).1) ∧
      s.Settled (r.work.run r.key s.now s.store).2 (s.run (List.replicate n (.perform c))) := by
  induction n generalizing s r with
  | zero => exact absurd hpos (Nat.lt_irrefl 0)
  | succ n ih =>
    have hcalls := calls_perform_of_working h
    have hsettled := settled_perform h hrest
    show ((s.perform c).run (List.replicate n (.perform c))).answer? c = _ ∧
      s.Settled _ ((s.perform c).run (List.replicate n (.perform c)))
    unfold delivered at hcalls
    cases hnext : (r.work.resume r.key s.now (Store.perform s.now r.call s.store).1).next with
    | inr result =>
      rw [hnext] at hcalls
      rw [Work.run_of_inr hnext, run_perform_of_over n hcalls]
      exact ⟨answer?_of_over hcalls, hsettled⟩
    | inl work =>
      rw [hnext] at hcalls
      have hless := Work.rank_resume hnext
      obtain ⟨stage, stage', -, rfl⟩ := Request.exists_stage_of_resume hnext
      have hone : 1 ≤ (Work.read stage').rank := Nat.le_add_left 1 _
      obtain ⟨hanswer, hend⟩ := ih hcalls hsettled.atRest (by omega) (by simp only; omega)
      rw [hsettled.now, hsettled.store] at hanswer hend
      rw [Work.run_of_inl hnext]
      exact ⟨hanswer, hsettled.trans hend⟩

end

/-! ### Getting the store -/

/-- The turns before a call has the store. -/
def entryEvents (s : LiveCache σ) (command : Command) : List Event :=
  [.start command true, .begin s.calls.length, .ask s.calls.length,
    .beginAttempt s.attempts.length, .endAttempt s.attempts.length (.opened 0),
    .release s.attempts.length, .wake s.calls.length]

/-- What is true after these turns: the call is at a stage, and all else is as it was. -/
structure Entered (s : LiveCache σ) (command : Command) (stage : CallStage) (s' : LiveCache σ) :
    Prop where
  calls : s'.calls[s.calls.length]? = some ⟨command, true, stage, none⟩
  settled : s.Settled s.store s'

theorem calls_moveCall_self {hasTime : Bool} {before : CallStage} (stage : CallStage)
    (h : s.calls[c]? = some ⟨command, hasTime, before, none⟩) :
    (s.moveCall c stage).calls[c]? = some ⟨command, hasTime, stage, none⟩ := by
  rw [calls_moveCall, if_pos rfl, h]
  rfl

/-- Events about an attempt that does not exist change nothing. -/
theorem idle_of_length (h : s.attempts.length ≤ a) :
    ((s.beginAttempt a).endAttempt a (.opened 0)).release a = s := by
  have hnone : s.attempts[a]? = none := List.getElem?_eq_none h
  have hbegin : s.beginAttempt a = s := by rw [beginAttempt, hnone]
  have hend : s.endAttempt a (.opened 0) = s := by rw [endAttempt, hnone]
  rw [hbegin, hend, release, hnone, if_neg (by simp)]

/-- The attempt of a call that is the first to need the store opens it. -/
theorem opened_release {context : LogContext Text} (hopening : s.opening = some a)
    (hattempt : s.attempts[a]? = some ⟨context, .created, false⟩) :
    ∃ s', ((s.beginAttempt a).endAttempt a (.opened 0)).release a = s' ∧ s'.calls = s.calls ∧
      s'.opening = none ∧ s'.handle = some 0 ∧
        (s'.attempts[a]?).map Attempt.stage = some (.ended (.opened 0)) ∧
          s'.cache = s.cache ∧ s'.surroundings = s.surroundings := by
  have hbegun : (s.moveAttempt a .opening).attempts[a]? = some ⟨context, .opening, false⟩ := by
    rw [attempts_moveAttempt, if_pos rfl, hattempt]
    rfl
  have hbegin : s.beginAttempt a = s.moveAttempt a .opening := by
    rw [beginAttempt, hattempt]
    rfl
  generalize hs₁ : s.moveAttempt a .opening = s₁ at hbegun hbegin
  obtain ⟨s₂, hend, hended⟩ : ∃ s₂, s₁.endAttempt a (.opened 0) = s₂ ∧
      s₂.attempts[a]? = some ⟨context, .ended (.opened 0), false⟩ ∧ s₂.opening = s₁.opening ∧
        s₂.handle = some 0 ∧ s₂.calls = s₁.calls ∧ s₂.cache = s₁.cache ∧
          s₂.surroundings = s₁.surroundings := by
    refine ⟨_, rfl, ?_⟩
    rw [endAttempt, hbegun]
    dsimp only
    refine ⟨?_, rfl, rfl, rfl, rfl, rfl⟩
    rw [attempts_moveAttempt, if_pos rfl, attempts_say]
    rw [show ({ s₁ with handle := some 0 } : LiveCache σ).attempts = s₁.attempts from rfl, hbegun]
    rfl
  obtain ⟨hattempt₂, hopening₂, hhandle₂, hcalls₂, hcache₂, hsurroundings₂⟩ := hended
  subst hs₁
  refine ⟨{ s₂ with opening := none }, ?_, hcalls₂, rfl, hhandle₂, ?_, hcache₂, hsurroundings₂⟩
  · rw [hbegin, hend, release, hattempt₂, hopening₂]
    exact if_pos ⟨hopening, rfl⟩
  · rw [hattempt₂]
    rfl

/-- The turns in which a checked call gets the store. -/
def gain (s : LiveCache σ) (c a : Nat) : LiveCache σ :=
  ((((s.ask c).beginAttempt a).endAttempt a (.opened 0)).release a).wake c

/-- A call takes the handle if the cache holds one. -/
theorem gain_of_handle {handle : Handle}
    (h : s.calls[c]? = some ⟨command, true, .prepared r, none⟩) (hhandle : s.handle = some handle)
    (ha : s.attempts.length ≤ a) : s.gain c a = s.moveCall c (.working handle r) := by
  have hcalls := calls_moveCall_self (.working handle r) h
  have hask : s.ask c = s.moveCall c (.working handle r) := by
    rw [ask, h]
    simp only [hhandle]
  have hidle :
      (((s.moveCall c (.working handle r)).beginAttempt a).endAttempt a (.opened 0)).release a =
        s.moveCall c (.working handle r) := idle_of_length ha
  rw [gain, hask, hidle, wake, hcalls]

/-- Otherwise it makes an attempt, which opens the store. -/
theorem gain_of_none (h : s.calls[c]? = some ⟨command, true, .prepared r, none⟩)
    (hhandle : s.handle = none) (hopening : s.opening = none) :
    (s.gain c s.attempts.length).calls[c]? = some ⟨command, true, .working 0 r, none⟩ ∧
      s.Settled s.store (s.gain c s.attempts.length) ∧
        (s.gain c s.attempts.length).handle = some 0 := by
  have hnone : s.current? = none := by
    rw [current?, hopening]
    rfl
  obtain ⟨s₁, hask, hcalls₁, hopening₁, hattempt₁, hcache₁, hsurroundings₁⟩ : ∃ s₁, s.ask c = s₁ ∧
      s₁.calls[c]? = some ⟨command, true, .joined s.attempts.length r, none⟩ ∧
      s₁.opening = some s.attempts.length ∧
      s₁.attempts[s.attempts.length]? = some ⟨r.context, .created, false⟩ ∧
      s₁.cache = s.cache ∧ s₁.surroundings = s.surroundings := by
    refine ⟨_, rfl, ?_⟩
    rw [ask, h]
    simp only [hhandle, attemptFor, hnone]
    exact ⟨calls_moveCall_self _ h, rfl, List.getElem?_concat_length, rfl, rfl⟩
  obtain ⟨s₂, hrelease, hcalls₂, hopening₂, hhandle₂, hended, hcache₂, hsurroundings₂⟩ :=
    opened_release hopening₁ hattempt₁
  rw [gain, hask, hrelease, wake, hcalls₂, hcalls₁]
  simp only [hended]
  refine ⟨calls_moveCall_self _ hcalls₁, ?_, hhandle₂⟩
  have hsurroundings := hsurroundings₂.trans hsurroundings₁
  exact {
    cache := hcache₂.trans hcache₁
    now := congrArg Prod.snd hsurroundings
    store := congrArg Prod.fst hsurroundings
    atRest := fun _ => hopening₂ }

variable [Store σ]

theorem entered_of_error {fault : CacheFault} (hrest : s.AtRest)
    (h : command.request s.cache s.now = .error fault) :
    s.Entered command (.over (command.answer (.error fault))) (s.run (s.entryEvents command)) := by
  have hstart : (s.start command true).calls[s.calls.length]? =
      some ⟨command, true, .created, none⟩ := List.getElem?_concat_length
  have hcalls := calls_moveCall_self (.over (command.answer (.error fault))) hstart
  have hbegin : (s.start command true).begin s.calls.length =
      (s.start command true).moveCall s.calls.length (.over (command.answer (.error fault))) := by
    have hrequest : command.request (s.start command true).cache (s.start command true).now =
      .error fault := h
    rw [begin, hstart]
    dsimp only
    rw [hrequest]
  generalize hs₁ : (s.start command true).moveCall s.calls.length
    (.over (command.answer (.error fault))) = s₁ at hcalls hbegin
  have hask : s₁.ask s.calls.length = s₁ := by rw [ask, hcalls]
  have hwake : s₁.wake s.calls.length = s₁ := by rw [wake, hcalls]
  have hidle : ((s₁.beginAttempt s.attempts.length).endAttempt s.attempts.length
      (.opened 0)).release s.attempts.length = s₁ := by
    apply idle_of_length
    subst hs₁
    exact Nat.le_refl _
  have hrun : s.run (s.entryEvents command) = s₁ := by
    show ((((((s.start command true).begin _).ask _).beginAttempt _).endAttempt _
      (.opened 0)).release _).wake _ = s₁
    rw [hbegin, hask, hidle, hwake]
  subst hs₁
  exact ⟨hrun ▸ hcalls, by rw [hrun]; exact ⟨rfl, rfl, rfl, hrest⟩⟩

theorem entered_of_ok (hrest : s.AtRest) (h : command.request s.cache s.now = .ok r) :
    ∃ handle, s.Entered command (.working handle r) (s.run (s.entryEvents command)) := by
  have hstart : (s.start command true).calls[s.calls.length]? =
      some ⟨command, true, .created, none⟩ := List.getElem?_concat_length
  have hcalls := calls_moveCall_self (.prepared r) hstart
  have hbegin : (s.start command true).begin s.calls.length =
      (s.start command true).moveCall s.calls.length (.prepared r) := by
    have hrequest : command.request (s.start command true).cache (s.start command true).now =
      .ok r := h
    rw [begin, hstart]
    dsimp only
    rw [hrequest]
    rfl
  have hrun : s.run (s.entryEvents command) =
      ((s.start command true).begin s.calls.length).gain s.calls.length s.attempts.length := rfl
  rw [hrun, hbegin]
  clear hrun hbegin hstart
  generalize hs₁ : (s.start command true).moveCall s.calls.length (.prepared r) = s₁ at hcalls ⊢
  have hattempts : s.attempts = s₁.attempts := by
    subst hs₁
    rfl
  have hsettled : s.Settled s.store s₁ := by
    subst hs₁
    exact ⟨rfl, rfl, rfl, hrest⟩
  rw [hattempts]
  cases hhandle : s₁.handle with
  | some handle =>
    rw [gain_of_handle hcalls hhandle (Nat.le_refl _)]
    have hworking := calls_moveCall_self (.working handle r) hcalls
    exact ⟨handle, hworking, hsettled.cache, hsettled.now, hsettled.store, hsettled.atRest⟩
  | none =>
    have hopening := hsettled.atRest (isOpen_eq_false_iff.2 hhandle)
    obtain ⟨hworking, hgained, -⟩ := gain_of_none hcalls hhandle hopening
    rw [hsettled.store] at hgained
    exact ⟨0, hworking, hsettled.trans hgained⟩

/-! ### The whole call -/

theorem run_callEvents : s.run (s.callEvents command true) =
    (s.run (s.entryEvents command)).run (List.replicate 5 (.perform s.calls.length)) :=
  List.foldl_append

/-- A command that is refused changes nothing. -/
theorem call_of_error {fault : CacheFault} (hrest : s.AtRest)
    (h : command.request s.cache s.now = .error fault) :
    (s.call command true).1 = some (command.answer (.error fault)) ∧
      s.Settled s.store (s.call command true).2 := by
  obtain ⟨hcalls, hsettled⟩ := entered_of_error hrest h
  rw [call, run_callEvents, run_perform_of_over 5 hcalls]
  exact ⟨answer?_of_over hcalls, hsettled⟩

/-- **A command that is not refused does its work.** -/
theorem call_of_ok (hrest : s.AtRest) (h : command.request s.cache s.now = .ok r)
    (hrank : r.work.rank ≤ 5) :
    (s.call command true).1 = some (command.answer (r.work.run r.key s.now s.store).1) ∧
      s.Settled (r.work.run r.key s.now s.store).2 (s.call command true).2 := by
  obtain ⟨handle, hcalls, hsettled⟩ := entered_of_ok hrest h
  have hwork := run_perform hcalls hsettled.atRest (by decide : 0 < 5) hrank
  rw [hsettled.now, hsettled.store] at hwork
  rw [call, run_callEvents]
  dsimp only
  exact ⟨hwork.1, hsettled.trans hwork.2⟩

end LiveCache

end SlidingCache
