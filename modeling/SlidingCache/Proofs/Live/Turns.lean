import SlidingCache.Proofs.Live.SingleFlight

/-!
# Turns on behalf of a call

A call takes its turns one after the other, and where it waits for an attempt to open the store, the
attempt takes turns on its behalf. `LiveCache.isDue` says which events are such a turn. Until a call
is over there is always one due (`LiveCache.Coordinated.exists_due`), and whatever else happens in
between, there are nine at most (`LiveCache.Coordinated.turnsLeft_run`): the two in which it begins
and asks, the two of the attempt, the one in which it takes the outcome, and four store calls.
-/

namespace SlidingCache

/-- How many store calls a read may need. -/
def ReadStage.turnsLeft (stage : ReadStage) : Nat := max 1 stage.rank

theorem ReadStage.turnsLeft_resume {key : Text} {now : Instant} {stage next : ReadStage}
    {reply : Except StoreFault (stage.call key).Reply}
    (h : (stage.resume key now reply).next = .inl next) : next.turnsLeft < stage.turnsLeft := by
  have hless := rank_resume h
  cases stage with
  | fetching | refetching => simp only [turnsLeft, rank] at hless ⊢; omega
  | deleting | deletingAgain => exact absurd hless (Nat.not_lt_zero _)
  | renewing payload found ttl last =>
    cases last with
    | false => simp only [turnsLeft, rank] at hless ⊢; omega
    | true =>
      -- the second write is the last call, even if it loses
      cases reply with
      | ok revision => cases h
      | error fault => cases fault <;> cases h

/-- How many store calls the work may need. -/
def Work.turnsLeft : Work → Nat
  | read stage => stage.turnsLeft
  | write _ => 1

theorem Work.turnsLeft_pos (work : Work) : 0 < work.turnsLeft := by
  cases work with
  | read stage => exact Nat.le_max_left 1 _
  | write call => exact Nat.one_pos

theorem Work.turnsLeft_le (work : Work) : work.turnsLeft ≤ 4 := by
  cases work with
  | read stage => exact Nat.max_le.2 ⟨by decide, stage.rank_le⟩
  | write call => exact Nat.succ_le_succ (Nat.zero_le 3)

theorem Work.turnsLeft_resume {key : Text} {now : Instant} {work next : Work}
    {reply : Except StoreFault (work.call key).Reply}
    (h : (work.resume key now reply).next = .inl next) : next.turnsLeft < work.turnsLeft := by
  obtain ⟨stage, stage', rfl, rfl⟩ := Request.exists_stage_of_resume h
  exact ReadStage.turnsLeft_resume (Request.resume_read h)

/-- How many turns an attempt may need until it has ended. -/
def Attempt.turnsLeft (a : Attempt) : Nat := match a.stage with
  | .created => 2
  | .opening => 1
  | .ended _ => 0

theorem Attempt.turnsLeft_le (a : Attempt) : a.turnsLeft ≤ 2 := by
  unfold turnsLeft
  split <;> omega

namespace LiveCache

variable {σ : Type} {s : LiveCache σ} {a c : Nat} {e : Event} {call call' : Call}

/-- How many turns a call at a stage may need, those of the attempt that it waits for included. -/
def turnsAt (s : LiveCache σ) : CallStage → Nat
  | .created => 9
  | .prepared _ => 8
  | .joined a _ => 5 + (s.attempts[a]?).elim 0 Attempt.turnsLeft
  | .working _ request => request.work.turnsLeft
  | .over _ | .dropped => 0

def turnsLeft (s : LiveCache σ) (c : Nat) : Nat :=
  (s.calls[c]?).elim 0 fun call => s.turnsAt call.stage

/-- Whether an event is a turn on behalf of a call. -/
def isDue (s : LiveCache σ) (c : Nat) (e : Event) : Bool :=
  match s.calls[c]?, e with
  | some ⟨_, _, .created, _⟩, .begin d | some ⟨_, _, .prepared _, _⟩, .ask d
  | some ⟨_, _, .working .., _⟩, .perform d | some ⟨_, _, .working .., _⟩, .refuse d _ => d = c
  | some ⟨_, _, .joined a _, i⟩, .wake d =>
    d = c && (i.isSome || (s.attempts[a]?).any Attempt.hasEnded)
  | some ⟨_, _, .joined a _, _⟩, .beginAttempt b =>
    b = a && (s.attempts[a]?).any (·.stage = .created)
  | some ⟨_, _, .joined a _, _⟩, .endAttempt b _ =>
    b = a && (s.attempts[a]?).any (·.stage = .opening)
  | _, _ => false

/-- How many turns on behalf of a call there are among some events. -/
def dueTurns [Store σ] (s : LiveCache σ) (c : Nat) : List Event → Nat
  | [] => 0
  | e :: later => (s.isDue c e).toNat + (s.step e).dueTurns c later

/-! ## There is a turn -/

/-- **Until a call is over, a turn is due on its behalf.** -/
theorem Coordinated.exists_due (h : s.Coordinated) (hc : s.calls[c]? = some call)
    (hopen : call.isOver = false) : ∃ e, s.isDue c e := by
  rcases call with ⟨command, hasTime, stage, interruption⟩
  cases stage with
  | created => exact ⟨.begin c, by simp [isDue, hc]⟩
  | prepared request => exact ⟨.ask c, by simp [isDue, hc]⟩
  | working handle request => exact ⟨.perform c, by simp [isDue, hc]⟩
  | joined a request =>
    obtain ⟨attempt, ha⟩ : ∃ attempt, s.attempts[a]? = some attempt :=
      ⟨_, List.getElem?_eq_getElem (h.awaited hc rfl)⟩
    cases hstage : attempt.stage with
    | created => exact ⟨.beginAttempt a, by simp [isDue, hc, ha, hstage]⟩
    | opening => exact ⟨.endAttempt a .cancelled, by simp [isDue, hc, ha, hstage]⟩
    | ended outcome => exact ⟨.wake c, by simp [isDue, hc, ha, Attempt.hasEnded, hstage]⟩
  | _ => cases hopen

/-! ## There are not many -/

theorem turnsAt_joined_le {request : Request} : s.turnsAt (.joined a request) ≤ 7 := by
  rw [turnsAt]
  cases s.attempts[a]? with
  | none => simp
  | some attempt => exact Nat.add_le_add_left attempt.turnsLeft_le 5

theorem lt_turnsAt_joined {request : Request} : 4 < s.turnsAt (.joined a request) :=
  Nat.le_add_right 5 _

theorem turnsAt_working_le {handle : Handle} {request : Request} :
    s.turnsAt (.working handle request) ≤ 4 :=
  request.work.turnsLeft_le

theorem turnsAt_delivered {now : Instant} {command : Command} {handle : Handle} {request : Request}
    {reply : Except StoreFault request.call.Reply} :
    s.turnsAt (delivered now command handle request reply) <
      s.turnsAt (.working handle request) := by
  unfold delivered
  cases hnext : (request.work.resume request.key now reply).next with
  | inl work => exact Work.turnsLeft_resume hnext
  | inr result => exact request.work.turnsLeft_pos

theorem turnsAt_received {command : Command} {request : Request} {outcome : Outcome} :
    s.turnsAt (received command request outcome) ≤ 4 := by
  cases outcome with
  | opened => exact turnsAt_working_le
  | failed | cancelled => exact Nat.zero_le 4

variable [Store σ]

/-- A call that leaves its stage has fewer turns left, whatever becomes of the attempts. -/
theorem turnsAt_of_callStep {s' : LiveCache σ} (h : CallStep s c call e call') :
    call'.stage = call.stage ∨ s'.turnsAt call'.stage < s.turnsAt call.stage := by
  rcases call with ⟨command, hasTime, stage, interruption⟩
  cases h with
  | rest | interrupt => exact .inl rfl
  | drop hs | reject hs =>
    cases hs
    exact .inr (Nat.succ_pos _)
  | prepare hs =>
    cases hs
    right
    cases hasTime with
    | true => exact Nat.lt_succ_self 8
    | false => exact Nat.succ_pos _
  | take hs =>
    cases hs
    exact .inr (Nat.lt_of_le_of_lt turnsAt_working_le (by decide : 4 < 8))
  | join hs =>
    cases hs
    exact .inr (Nat.lt_succ_of_le turnsAt_joined_le)
  | wake hs =>
    cases hs
    exact .inr (Nat.lt_of_le_of_lt turnsAt_received lt_turnsAt_joined)
  | perform hs | refuse hs =>
    cases hs
    exact .inr turnsAt_delivered
  | turnBack hs =>
    cases hs
    exact .inr (Nat.succ_pos _)
  | breakOff hs =>
    cases hs
    exact .inr (Work.turnsLeft_pos _)
  | leave hs =>
    cases hs
    exact .inr (Nat.lt_of_le_of_lt (Nat.zero_le 4) lt_turnsAt_joined)

omit [Store σ] in
/-- No attempt goes back. -/
theorem turnsLeft_attempt {attempt attempt' : Attempt} (h : AttemptStep s a attempt e attempt') :
    attempt'.turnsLeft ≤ attempt.turnsLeft := by
  rcases attempt with ⟨context, stage, stopping⟩
  cases h with
  | rest | abandon | close => exact Nat.le_refl _
  | begin hs =>
    cases hs
    cases stopping with
    | true => exact Nat.zero_le 2
    | false => exact Nat.le_succ 1
  | finish hs =>
    cases hs
    exact Nat.zero_le 1

/-- Who has asked for the store has it, waits for it or has given up. -/
theorem stage_ne_of_ask {request : Request} (hc : s.calls[c]? = some call)
    (hstage : call.stage = .prepared request)
    (hc' : (s.step (.ask c)).calls[c]? = some call') : call'.stage ≠ .prepared request := by
  rcases call with ⟨command, hasTime, stage, interruption⟩
  obtain rfl : stage = .prepared request := hstage
  cases interruption with
  | some i =>
    simp only [step, ask, hc] at hc'
    rw [stage_of_moveCall hc']
    rintro ⟨⟩
  | none =>
    simp only [step, ask, hc] at hc'
    split at hc' <;> (rw [stage_of_moveCall hc']; rintro ⟨⟩)

/-- Who has waited does not wait on, once there is an outcome or a reason to give up. -/
theorem stage_ne_of_wake {request : Request} (hc : s.calls[c]? = some call)
    (hstage : call.stage = .joined a request)
    (hready : call.interruption.isSome ∨ (s.attempts[a]?).any Attempt.hasEnded)
    (hc' : (s.step (.wake c)).calls[c]? = some call') : call'.stage ≠ .joined a request := by
  rcases call with ⟨command, hasTime, stage, interruption⟩
  obtain rfl : stage = .joined a request := hstage
  cases interruption with
  | some i =>
    simp only [step, wake, hc] at hc'
    rw [stage_of_moveCall hc']
    rintro ⟨⟩
  | none =>
    obtain ⟨attempt, ha, hready⟩ := (Option.any_eq_true _ _).1 (hready.resolve_left (by simp))
    cases hended : attempt.stage with
    | ended outcome =>
      simp only [step, wake, hc, ha, Option.map_some, hended] at hc'
      split at hc' <;> (rw [stage_of_moveCall hc']; rintro ⟨⟩)
    | created | opening => simp [Attempt.hasEnded, hended] at hready

omit [Store σ] in
/-- A reply takes the work on: fewer store calls are left of it. -/
theorem delivered_ne {now : Instant} {command : Command} {handle : Handle} {request : Request}
    {reply : Except StoreFault request.call.Reply} :
    delivered now command handle request reply ≠ .working handle request := by
  intro hsame
  unfold delivered at hsame
  cases hnext : (request.work.resume request.key now reply).next with
  | inl work =>
    rw [hnext] at hsame
    have hwork : work = request.work := congrArg Request.work (CallStage.working.inj hsame).2
    have hless := Work.turnsLeft_resume hnext
    rw [hwork] at hless
    exact Nat.lt_irrefl _ hless
  | inr result =>
    rw [hnext] at hsame
    cases hsame

/-- A reply or a refusal takes a working call on. -/
theorem stage_ne_of_working {handle : Handle} {request : Request} (hc : s.calls[c]? = some call)
    (hstage : call.stage = .working handle request) (he : e = .perform c ∨ ∃ f, e = .refuse c f)
    (hc' : (s.step e).calls[c]? = some call') : call'.stage ≠ .working handle request := by
  rcases call with ⟨command, hasTime, stage, interruption⟩
  obtain rfl : stage = .working handle request := hstage
  obtain rfl | ⟨fault, rfl⟩ := he
  all_goals
    cases interruption with
    | some i =>
      simp only [step, LiveCache.perform, LiveCache.refuse, hc] at hc'
      rw [stage_of_moveCall hc']
      rintro ⟨⟩
    | none =>
      simp only [step, LiveCache.perform, LiveCache.refuse, hc, calls_deliver, if_true] at hc'
      cases hc'
      exact delivered_ne

/-- A turn of its own takes a call on. -/
theorem stage_ne_of_isDue (hc : s.calls[c]? = some call) (hdue : s.isDue c e)
    (hc' : (s.step e).calls[c]? = some call') (hopening : ∀ a, e ≠ .beginAttempt a)
    (hended : ∀ a outcome, e ≠ .endAttempt a outcome) : call'.stage ≠ call.stage := by
  rcases call with ⟨command, hasTime, stage, interruption⟩
  cases stage with
  | created =>
    cases e with
    | begin d =>
      obtain rfl : d = c := by simpa [isDue, hc] using hdue
      exact ne_created_of_begin hc'
    | _ => simp [isDue, hc] at hdue
  | prepared request =>
    cases e with
    | ask d =>
      obtain rfl : d = c := by simpa [isDue, hc] using hdue
      exact stage_ne_of_ask hc rfl hc'
    | _ => simp [isDue, hc] at hdue
  | joined a request =>
    cases e with
    | wake d =>
      obtain ⟨rfl, hready⟩ : d = c ∧ (interruption.isSome ∨
        (s.attempts[a]?).any Attempt.hasEnded) := by simpa [isDue, hc] using hdue
      exact stage_ne_of_wake hc rfl hready hc'
    | beginAttempt a => exact absurd rfl (hopening a)
    | endAttempt a outcome => exact absurd rfl (hended a outcome)
    | _ => simp [isDue, hc] at hdue
  | working handle request =>
    cases e with
    | perform d =>
      obtain rfl : d = c := by simpa [isDue, hc] using hdue
      exact stage_ne_of_working hc rfl (.inl rfl) hc'
    | refuse d fault =>
      obtain rfl : d = c := by simpa [isDue, hc] using hdue
      exact stage_ne_of_working hc rfl (.inr ⟨fault, rfl⟩) hc'
    | _ => simp [isDue, hc] at hdue
  | _ => simp [isDue, hc] at hdue

/-- The attempt that a call waits for has fewer turns left after one of its own. -/
theorem turnsLeft_attempt_of_isDue {request : Request} (hc : s.calls[c]? = some call)
    (hstage : call.stage = .joined a request) (hdue : s.isDue c e)
    (hown : ∀ d, e ≠ .wake d) :
    ((s.step e).attempts[a]?).elim 0 Attempt.turnsLeft <
      (s.attempts[a]?).elim 0 Attempt.turnsLeft := by
  rcases call with ⟨command, hasTime, stage, interruption⟩
  obtain rfl : stage = .joined a request := hstage
  cases e with
  | beginAttempt b =>
    obtain ⟨rfl, hcreated⟩ : b = a ∧ (s.attempts[a]?).any (·.stage = .created) := by
      simpa [isDue, hc] using hdue
    obtain ⟨⟨context, stage, stopping⟩, ha, hcreated⟩ := (Option.any_eq_true _ _).1 hcreated
    obtain rfl : stage = .created := of_decide_eq_true hcreated
    rw [step, beginAttempt, ha]
    dsimp only
    rw [attempts_moveAttempt, if_pos rfl, ha]
    cases stopping with
    | true => exact (by decide : 0 < 2)
    | false => exact (by decide : 1 < 2)
  | endAttempt b outcome =>
    obtain ⟨rfl, hopening⟩ : b = a ∧ (s.attempts[a]?).any (·.stage = .opening) := by
      simpa [isDue, hc] using hdue
    obtain ⟨⟨context, stage, stopping⟩, ha, hopening⟩ := (Option.any_eq_true _ _).1 hopening
    obtain rfl : stage = .opening := of_decide_eq_true hopening
    rw [attempts_endAttempt ha rfl, ha]
    exact Nat.lt_succ_self 0
  | wake d => exact absurd rfl (hown d)
  | _ => simp [isDue, hc] at hdue

/-- A call that stays at its stage has had no turn of its own. Its attempt may have had one. -/
theorem Coordinated.turnsAt_step (h : s.Coordinated) (hc : s.calls[c]? = some call)
    (hc' : (s.step e).calls[c]? = some call') (hsame : call'.stage = call.stage) :
    (s.step e).turnsAt call.stage + (s.isDue c e).toNat ≤ s.turnsAt call.stage := by
  have hnot : s.isDue c e → (∃ a, e = .beginAttempt a) ∨ ∃ a outcome, e = .endAttempt a outcome :=
    fun hdue => Classical.byContradiction fun hown =>
      stage_ne_of_isDue hc hdue hc' (fun a he => hown (.inl ⟨a, he⟩))
        (fun a outcome he => hown (.inr ⟨a, outcome, he⟩)) hsame
  cases hstage : call.stage with
  | joined a request =>
    have ha := List.getElem?_eq_getElem (h.awaited hc (by rw [Call.awaited?, hstage]))
    obtain ⟨attempt', ha', hstep⟩ := attemptStep_step (e := e) ha
    simp only [turnsAt]
    cases hdue : s.isDue c e with
    | true =>
      have hless := turnsLeft_attempt_of_isDue hc hstage hdue fun d he => by
        obtain ⟨a, ha⟩ | ⟨a, outcome, ha⟩ := hnot hdue <;> cases he.symm.trans ha
      exact Nat.add_lt_add_left hless 5
    | false =>
      rw [ha, ha']
      exact Nat.add_le_add_left (turnsLeft_attempt hstep) 5
  | _ =>
    -- nobody opens the store for the call
    have hrest : s.isDue c e = false := by
      refine Bool.eq_false_iff.2 fun hdue => ?_
      rcases call with ⟨command, hasTime, stage, interruption⟩
      cases hstage
      obtain ⟨a, rfl⟩ | ⟨a, outcome, rfl⟩ := hnot hdue <;> simp [isDue, hc] at hdue
    rw [hrest]
    exact Nat.le_refl _

/-- A turn on behalf of a call leaves it fewer, and no event gives it more. -/
theorem Coordinated.turnsLeft_step (h : s.Coordinated) (hc : s.calls[c]? = some call) :
    (s.step e).turnsLeft c + (s.isDue c e).toNat ≤ s.turnsLeft c := by
  obtain ⟨call', hc', hstep⟩ := callStep_step (e := e) hc
  simp only [turnsLeft, hc, hc', Option.elim_some]
  obtain hsame | hless : call'.stage = call.stage ∨
    (s.step e).turnsAt call'.stage < s.turnsAt call.stage := turnsAt_of_callStep hstep
  · rw [hsame]
    exact h.turnsAt_step hc hc' hsame
  · exact Nat.le_trans (Nat.add_le_add_left (Bool.toNat_le _) _) hless

/-- **A call has a limited number of turns**, whatever else happens between them. -/
theorem Coordinated.turnsLeft_run (h : s.Coordinated) (hc : s.calls[c]? = some call)
    (events : List Event) : (s.run events).turnsLeft c + s.dueTurns c events ≤ s.turnsLeft c := by
  induction events generalizing s call with
  | nil => exact Nat.le_refl _
  | cons e events ih =>
    obtain ⟨call', hc', -⟩ := callStep_step (e := e) hc
    have hlater := ih h.step hc'
    have hstep := h.turnsLeft_step (e := e) hc
    simp only [run_cons, dueTurns]
    omega

omit [Store σ] in
theorem isOver_of_turnsLeft (hc : s.calls[c]? = some call) (hnone : s.turnsLeft c = 0) :
    call.isOver := by
  rcases call with ⟨command, hasTime, stage, interruption⟩
  rw [turnsLeft, hc] at hnone
  cases stage with
  | joined a request =>
    have hless : 4 < s.turnsAt (.joined a request) := lt_turnsAt_joined
    exact absurd hnone (Nat.ne_of_gt (Nat.zero_lt_of_lt hless))
  | working handle request => exact absurd hnone (Nat.ne_of_gt request.work.turnsLeft_pos)
  | created | prepared => cases hnone
  | _ => rfl

end LiveCache

end SlidingCache
