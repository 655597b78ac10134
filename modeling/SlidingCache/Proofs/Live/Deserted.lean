import SlidingCache.Proofs.Live.SingleFlight
import SlidingCache.Store.Memory

/-!
# Attempts that nobody waits for

An attempt to open the store is made for a call that waits for it, and is to end with the last call
that does. `LiveCache.Deserted` is how it comes to go on for nobody: waiting calls are counted over
all attempts, so the last one to wait for an attempt does not stop it while a call still waits for
another one, which has ended or was asked to stop.

There is no other way (`LiveCache.tended_run`): an attempt under way has a call that waits for it,
or it was deserted, and so has one that stores its handle, unless it was asked to stop. Where it was
deserted, it does go on (`LiveCache.deserted_afterClose`).
-/

namespace SlidingCache.LiveCache

variable {σ : Type} {s : LiveCache σ} {a b c : Nat}

/-! ## Who waits for what -/

/-- A call waits for an attempt. -/
def Awaits (s : LiveCache σ) (c a : Nat) : Prop := (s.calls[c]?).bind Call.awaited? = some a

/-- A call is to give up at its next turn. -/
def IsInterrupted (s : LiveCache σ) (c : Nat) : Prop :=
  ((s.calls[c]?).bind Call.interruption).isSome

/-- An attempt is under way that no call waits for. -/
def IsOrphan (s : LiveCache σ) (a : Nat) : Prop := s.InFlight a ∧ ∀ c, ¬ s.Awaits c a

/-- The last call that waits for an attempt under way is to give up, while a call waits for another
attempt, which is not under way any more. -/
structure Deserted (s : LiveCache σ) (c a : Nat) : Prop where
  inFlight : s.InFlight a
  awaits : s.Awaits c a
  isInterrupted : s.IsInterrupted c
  last : ∀ b, s.Awaits b a → b = c
  other : ∃ b a', s.Awaits b a' ∧ a' ≠ a ∧ ¬ s.InFlight a'

instance : Decidable (s.Awaits c a) := inferInstanceAs (Decidable (_ = _))

instance : Decidable (s.IsInterrupted c) := inferInstanceAs (Decidable (_ = _))

instance : Decidable (s.InFlight a) :=
  decidable_of_iff ((s.attempts[a]?).any Attempt.canBeJoined)
    (by simp [InFlight, Option.any_eq_true])

/-- The stage of a call that waits. -/
theorem Awaits.exists_joined (h : s.Awaits c a) : ∃ command hasTime request interruption,
    s.calls[c]? = some ⟨command, hasTime, .joined a request, interruption⟩ := by
  obtain ⟨⟨command, hasTime, stage, interruption⟩, hc, hawaited⟩ := Option.bind_eq_some_iff.1 h
  cases stage with
  | joined a' request =>
    obtain rfl : a' = a := Option.some.inj hawaited
    exact ⟨command, hasTime, request, interruption, hc⟩
  | _ => cases hawaited

theorem awaits_of_joined {command : Command} {hasTime : Bool} {request : Request}
    {interruption : Option Interruption}
    (hc : s.calls[c]? = some ⟨command, hasTime, .joined a request, interruption⟩) :
    s.Awaits c a := by
  rw [Awaits, hc]
  rfl

theorem exists_awaits_of_isWaiting {call : Call} (hc : s.calls[c]? = some call)
    (hwaits : call.isWaiting) : ∃ a, s.Awaits c a := by
  obtain ⟨a, ha⟩ := Option.isSome_iff_exists.1 hwaits
  exact ⟨a, Option.bind_eq_some_iff.2 ⟨call, hc, ha⟩⟩

/-- One call is counted just when no other one waits, whatever for. -/
theorem Coordinated.waiting_eq_one_iff (h : s.Coordinated) (hc : s.Awaits c a) :
    s.waiting = 1 ↔ ∀ b a', s.Awaits b a' → b = c := by
  obtain ⟨command, hasTime, request, interruption, hcall⟩ := hc.exists_joined
  rw [h.waiting, countP_eq_one_iff hcall rfl]
  constructor
  · intro honly b a' hb
    obtain ⟨_, _, _, _, hcall'⟩ := hb.exists_joined
    exact honly b _ hcall' rfl
  · intro honly b call' hcall' hwaits
    obtain ⟨a', hb⟩ := exists_awaits_of_isWaiting hcall' hwaits
    exact honly b a' hb

variable [Store σ] {e : Event}

/-! ## One event -/

/-- A new attempt has the call that asked for it. -/
theorem awaits_of_new (hhandle : s.handle = none) (hcur : s.current? = none)
    (hnew : (s.step (.ask c)).InFlight s.attempts.length) :
    (s.step (.ask c)).Awaits c s.attempts.length := by
  have hgrown : (s.step (.ask c)).attempts ≠ s.attempts := by
    intro hsame
    obtain ⟨attempt, ha, -⟩ := hnew
    rw [hsame, List.getElem?_eq_none (Nat.le_refl _)] at ha
    cases ha
  cases hc : s.calls[c]? with
  | none => exact absurd (by simp [step, ask, hc]) hgrown
  | some call =>
    rcases call with ⟨command, hasTime, stage, interruption⟩
    cases stage with
    | prepared request =>
      cases interruption with
      | some i => exact absurd (by simp [step, ask, hc, finish]) hgrown
      | none => exact awaits_of_joined (retried_step hhandle hcur hc).2.2.1
    | _ => exact absurd (by simp [step, ask, hc]) hgrown

/-- A call waits for an attempt under way until it gives up. -/
theorem Awaits.left (hc : s.Awaits c a) (ha : s.InFlight a) (hleft : ¬ (s.step e).Awaits c a) :
    e = .wake c ∧ s.IsInterrupted c := by
  obtain ⟨command, hasTime, request, interruption, hcall⟩ := hc.exists_joined
  obtain ⟨call', hcall', hstep⟩ := callStep_step (e := e) hcall
  cases hstep with
  | rest | interrupt => exact absurd (awaits_of_joined hcall') hleft
  | leave _ hi =>
    cases hi
    exact ⟨rfl, by rw [IsInterrupted, hcall]; rfl⟩
  | wake hstage _ hattempt hended =>
    obtain ⟨attempt, ha, hjoin⟩ := ha
    cases hstage
    obtain rfl := Option.some.inj (hattempt.symm.trans ha)
    simp [Attempt.canBeJoined, Attempt.hasEnded, hended] at hjoin
  | drop hstage | reject hstage | prepare hstage | take hstage | join hstage | perform hstage
  | refuse hstage | turnBack hstage | breakOff hstage => cases hstage

/-- A call that gives up stops its attempt if it is the only one that is counted. -/
theorem inFlight_wake_iff (ha : s.InFlight a) (hc : s.Awaits c a) (hi : s.IsInterrupted c) :
    (s.step (.wake c)).InFlight a ↔ s.waiting ≠ 1 := by
  obtain ⟨command, hasTime, request, interruption, hcall⟩ := hc.exists_joined
  obtain ⟨attempt, hattempt, hjoin⟩ := ha
  obtain ⟨i, hinterruption⟩ : ∃ i, interruption = some i :=
    Option.isSome_iff_exists.1 (by rwa [IsInterrupted, hcall] at hi)
  subst hinterruption
  have hended : attempt.hasEnded = false := by
    simp [Attempt.canBeJoined] at hjoin
    exact hjoin.1
  have hattempts : (s.step (.wake c)).attempts =
      if s.waiting = 1 then (s.stop a).attempts else s.attempts := by
    simp only [step, wake, hcall, finish, attempts_moveCall, attempts_say, attempts_leave]
  rw [InFlight, hattempts]
  by_cases hone : s.waiting = 1
  · simp [hone, attempts_stop, hattempt, hended, Attempt.canBeJoined]
  · simp only [hone, if_false]
    exact iff_of_true ⟨attempt, hattempt, hjoin⟩ hone

/-- **The last call that waits for an attempt stops it**, unless a call waits for another one. -/
theorem Coordinated.goesOn_iff (h : s.Coordinated) (ha : s.InFlight a) (hc : s.Awaits c a)
    (hi : s.IsInterrupted c) (hlast : ∀ b, s.Awaits b a → b = c) :
    (s.step (.wake c)).InFlight a ↔ ∃ b a', s.Awaits b a' ∧ a' ≠ a := by
  rw [inFlight_wake_iff ha hc hi]
  constructor
  · intro hmany
    refine Classical.byContradiction fun hnone => hmany ?_
    rw [h.waiting_eq_one_iff hc]
    intro b a' hb
    by_cases haa : a' = a
    · exact hlast b (haa ▸ hb)
    · exact absurd ⟨b, a', hb, haa⟩ hnone
  · rintro ⟨b, a', hb, haa⟩ hone
    obtain rfl := (h.waiting_eq_one_iff hc).1 hone b a' hb
    exact haa (Option.some.inj (hb.symm.trans hc))

/-- An attempt under way is left without a call only by being deserted. -/
theorem Coordinated.isOrphan_step (h : s.Coordinated) (ha' : (s.step e).IsOrphan a) :
    s.IsOrphan a ∨ ∃ c, e = .wake c ∧ s.Deserted c a := by
  obtain ⟨hflight', hnone'⟩ := ha'
  obtain hflight | ⟨⟨c, rfl⟩, hhandle, hcur, rfl, -⟩ := inFlight_of_step hflight'
  · by_cases hnone : ∀ c, ¬ s.Awaits c a
    · exact .inl ⟨hflight, hnone⟩
    · right
      obtain ⟨c, hc⟩ := Classical.not_forall.1 hnone
      have hc := Classical.not_not.1 hc
      obtain ⟨rfl, hi⟩ := hc.left hflight (hnone' c)
      have hlast : ∀ b, s.Awaits b a → b = c := by
        refine fun b hb => Decidable.byContradiction fun hbc => hnone' b ?_
        rw [Awaits, show (s.step (.wake c)).calls[b]? = s.calls[b]? from
          calls_wake_of_ne (Ne.symm hbc)]
        exact hb
      obtain ⟨b, a', hb, haa⟩ := (h.goesOn_iff hflight hc hi hlast).1 hflight'
      exact ⟨c, rfl, hflight, hc, hi, hlast, b, a', hb, haa, fun hother =>
        haa (h.unique hother hflight)⟩
  · exact absurd (awaits_of_new hhandle hcur hflight') (hnone' c)

/-! ## Runs -/

/-- In the course of some events, the last call of an attempt gave up as it was deserted. -/
def WasDeserted (s : LiveCache σ) (events : List Event) (a : Nat) : Prop :=
  ∃ before c after, events = before ++ .wake c :: after ∧ (s.run before).Deserted c a

theorem Coordinated.isOrphan_run (h : s.Coordinated) {events : List Event}
    (ha' : (s.run events).IsOrphan a) : s.IsOrphan a ∨ s.WasDeserted events a := by
  induction events generalizing s with
  | nil => exact .inl ha'
  | cons e events ih =>
    obtain hnext | ⟨before, c, after, rfl, hdeserted⟩ := ih h.step ha'
    · apply (h.isOrphan_step hnext).imp_right
      rintro ⟨c, rfl, hdeserted⟩
      exact ⟨[], c, events, rfl, hdeserted⟩
    · exact .inr ⟨e :: before, c, after, rfl, hdeserted⟩

/-- What holds of attempts and those who wait for them at the end of a run. -/
structure Tended (s : LiveCache σ) (events : List Event) : Prop where
  /-- When the last call of an attempt gives up, the attempt is asked to stop, unless a call waits
  for another attempt. -/
  stopped : ∀ {c a}, (s.run events).InFlight a → (s.run events).Awaits c a →
    (s.run events).IsInterrupted c → (∀ b, (s.run events).Awaits b a → b = c) →
    ((s.run (events ++ [.wake c])).InFlight a ↔ ∃ b a', (s.run events).Awaits b a' ∧ a' ≠ a)
  /-- Every attempt under way has a call that waits for it, or was deserted. -/
  inFlight : ∀ {a}, (s.run events).InFlight a →
    (∃ c, (s.run events).Awaits c a) ∨ s.WasDeserted events a
  /-- So has every attempt that stores its handle, unless it was asked to stop. -/
  opened : ∀ {e handle}, (s.run (events ++ [e])).handle = some handle →
    (s.run events).handle = some handle ∨
      ∃ a attempt, e = .endAttempt a (.opened handle) ∧
        (s.run events).attempts[a]? = some attempt ∧
        (attempt.stopping ∨ (∃ c, (s.run events).Awaits c a) ∨ s.WasDeserted events a)

/-- **No attempt outlives its callers but one that is deserted**, whatever happens in whatever
order. -/
theorem tended_run (cache : Cache) (backend : Backend) (store : σ) (now : Instant)
    (events : List Event) : Tended { cache, backend, store, now } events := by
  have hnew : ({ cache, backend, store, now } : LiveCache σ).Coordinated := coordinated_new
  have hrun : (run { cache, backend, store, now } events).Coordinated := hnew.run
  have hflight : ∀ {a}, (run { cache, backend, store, now } events).InFlight a →
      (∃ c, (run { cache, backend, store, now } events).Awaits c a) ∨
        WasDeserted { cache, backend, store, now } events a := by
    refine fun {a} ha => Classical.byContradiction fun hnot => ?_
    obtain ⟨hnone, hdeserted⟩ := not_or.1 hnot
    obtain ⟨⟨attempt, hattempt, -⟩, -⟩ | hwas :=
      hnew.isOrphan_run ⟨ha, not_exists.1 hnone⟩
    · cases hattempt
    · exact hdeserted hwas
  exact {
    stopped := fun ha hc hi hlast => by
      rw [run_concat]
      exact hrun.goesOn_iff ha hc hi hlast
    inFlight := hflight
    opened := fun {e handle} hafter => by
      rw [run_concat] at hafter
      obtain hsame | ⟨-, hnone⟩ | ⟨a, attempt, handle', rfl, hattempt, hstage, hstored⟩ :=
        handle_step (s := run { cache, backend, store, now } events) (e := e)
      · exact .inl (hsame.symm.trans hafter)
      · cases hnone.symm.trans hafter
      · cases hstored.symm.trans hafter
        refine .inr ⟨a, attempt, rfl, hattempt, ?_⟩
        cases hstop : attempt.stopping with
        | true => exact .inl rfl
        | false => exact .inr (hflight (inFlight_of_opening hattempt hstage hstop)) }

/-- A call waits for an attempt that a close has stopped and that has not ended, and a second call
has made a new one and is cancelled. -/
def afterClose : List Event :=
  [.start (.get "k") true, .begin 0, .ask 0, .beginAttempt 0, .close, .start (.get "k") true,
    .begin 1, .ask 1, .beginAttempt 1, .interrupt 1 .cancel]

/-- The new attempt goes on when its only call has given up, and when all calls are over it opens
the store. -/
theorem deserted_afterClose :
    let s₀ : LiveCache MemoryStore := { backend := ⟨"cache", false⟩, store := {}, now := default }
    (¬ ∀ (events : List Event) (c a : Nat), (s₀.run events).InFlight a →
      (s₀.run events).Awaits c a → (s₀.run events).IsInterrupted c →
      (∀ b, (s₀.run events).Awaits b a → b = c) →
      ¬ (s₀.run (events ++ [.wake c])).InFlight a) ∧
    let s := s₀.run (afterClose ++ [.wake 1, .endAttempt 0 .cancelled, .release 0, .wake 0])
    s.calls.all Call.isOver ∧ s.InFlight 1 ∧
      (s.step (.endAttempt 1 (.opened 0))).handle = some 0 := by
  intro s₀
  refine ⟨fun h => ?_, by decide +kernel, by decide +kernel, by decide +kernel⟩
  have hlast : ∀ b, (s₀.run afterClose).Awaits b 1 → b = 1 := by
    intro b hb
    obtain ⟨_, _, _, _, hcall⟩ := hb.exists_joined
    have hlength : (s₀.run afterClose).calls.length = 2 := by decide +kernel
    have hlt : b < 2 := hlength ▸ (List.getElem?_eq_some_iff.1 hcall).1
    have hfirst : ¬ (s₀.run afterClose).Awaits 0 1 := by decide +kernel
    obtain rfl | rfl : b = 0 ∨ b = 1 := by omega
    · exact absurd hb hfirst
    · rfl
  exact h afterClose 1 1 (by decide +kernel) (by decide +kernel) (by decide +kernel) hlast
    (by decide +kernel)

end SlidingCache.LiveCache
