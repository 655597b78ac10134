import SlidingCache.Proofs.Metrics.Books

/-!
# The columns of the books

In a column, what was noted of a kind stands with some calls against others and against turns that
make one more due. It fits a move of a call if the move keeps both sides equal (`Column.Fits`). A
column in which every move of a run fits is balanced at the end of the run (`Column.balance_run`).

There are five columns. Conflicts and operations fit every move (`Column.fits_conflicts`,
`Column.fits_operations`). Verdicts, the outcomes of renewals, and what was written fit the moves by
which nothing fails (`Sound`): a read that fails at its first fetch has no verdict, one that fails
later leaves its renewal without an outcome, and a write that fails in the store has used up a
revision.
-/

namespace SlidingCache

/-- Whether an operation is said to have failed. -/
def Notice.isFailure : Notice → Bool
  | say (.operationFailed _) _ => true
  | _ => false

/-! ## How far a call is -/

namespace CallStage

/-- The work that is under way. -/
def work? : CallStage → Option Work
  | prepared r | joined _ r | working _ r => some r.work
  | created | .over _ | dropped => none

/-- Whether the caller has got an answer, which may be a fault. -/
def isAnswered : CallStage → Bool
  | .over _ => true
  | _ => false

/-- Whether the caller was refused for what was asked. -/
def isRefused : CallStage → Bool
  | .over (.error fault) => fault.isRefusal
  | _ => false

/-- Whether the caller was raised a fault of another kind. -/
def isRaised : CallStage → Bool
  | .over (.error fault) => !fault.isRefusal
  | _ => false

theorem work?_of_request? {call : Call} {r : Request} (h : call.request? = some r) :
    call.stage.work? = some r.work ∧ call.stage.isAnswered = false := by
  rcases call with ⟨command, hasTime, stage, interruption⟩
  cases stage with
  | prepared | joined | working =>
    cases h
    exact ⟨rfl, rfl⟩
  | _ => cases h

end CallStage

namespace Command

variable (cache : Cache) (command : Command) (stage : CallStage)

/-- A read whose key was accepted is over. -/
def hasRead : Bool :=
  command.isRead && (cache.storeKey command.key).isOk && stage.isAnswered

/-- A read whose key was accepted has its verdict: it is over, or its renewal is under way. -/
def hasVerdict : Bool :=
  command.isRead && (cache.storeKey command.key).isOk &&
    (stage.isAnswered || stage.work?.any Work.isRenewal)

/-- An operation that passed its checks is over. -/
def hasPassed (kind : Operation → Bool) : Bool :=
  kind command.operation && (cache.storeKey command.key).isOk && stage.isAnswered &&
    !stage.isRefused

omit cache command stage in
/-- A value has been set. -/
def hasSet : Command → CallStage → Bool
  | set .., .over (.ok _) => true
  | _, _ => false

end Command

section
variable {σ : Type} [Store σ] {s : LiveCache σ}

/-- What an event leaves only if it was so before was so at the beginning of a run. -/
theorem LiveCache.of_run {P : LiveCache σ → Prop} {events : List Event}
    (hback : ∀ {s : LiveCache σ} {e : Event}, e.isInHouse → P (s.step e) → P s)
    (hown : ∀ e ∈ events, e.isInHouse) (h : P (s.run events)) : P s := by
  induction events generalizing s with
  | nil => exact h
  | cons e events ih =>
    obtain ⟨he, hown⟩ := List.forall_mem_cons.1 hown
    exact hback he (ih hown h)

end

/-! ## Turns of a kind -/

/-- A kind of turns, by the request and the answer of the store. -/
abbrev TurnKind := (now : Instant) → (r : Request) → Except StoreFault r.call.Reply → Bool

namespace TurnKind

/-- A read finds, at its first fetch, a live entry with a window. -/
def findsWindow : TurnKind := fun now r reply => r.work.findsWindow now reply

/-- An update loses against another revision. -/
def losesUpdate : TurnKind := fun _ r reply => r.call.isLostUpdate reply

/-- A write is let through. -/
def writes : TurnKind := fun _ r reply => r.call.value?.isSome && reply.isOk

end TurnKind

namespace LiveCache

variable {σ : Type} {s : LiveCache σ} {e : Event}

section
variable [Store σ]

/-- Whether an event is a turn of a kind. -/
def serves (s : LiveCache σ) (kind : TurnKind) (e : Event) : Bool :=
  (s.served? e).any fun r => kind s.now r (Store.perform s.now r.call s.store).1

/-- How many turns of a kind there are in a run. -/
def turns (s : LiveCache σ) (kind : TurnKind) : List Event → Nat
  | [] => 0
  | e :: events => (s.serves kind e).toNat + (s.step e).turns kind events

theorem serves_of_none {kind : TurnKind} (h : s.served? e = none) : s.serves kind e = false := by
  rw [serves, h]
  rfl

theorem serves_of_some {kind : TurnKind} {r : Request} (h : s.served? e = some r) :
    s.serves kind e = kind s.now r (Store.perform s.now r.call s.store).1 := by
  rw [serves, h]
  rfl

end

/-! ## Runs without failures -/

/-- Nothing has failed but for a refusal: no caller was raised a fault, and no failure was said, so
that none is hidden behind the miss of a lenient read either. -/
structure Unfailing (s : LiveCache σ) : Prop where
  raised : s.count (fun _ stage => stage.isRaised) = 0
  said : s.noted Notice.isFailure = 0

/-- A move of a call by which nothing fails. -/
structure Sound (stage : CallStage) (notices : List Notice) : Prop where
  raised : stage.isRaised = false
  said : notices.countP Notice.isFailure = 0

section
variable {c : Nat} {call : Call} {stage : CallStage} {notices : List Notice}

theorem isRaised_of_isAnswered (h : stage.isAnswered = false) : stage.isRaised = false := by
  cases stage with
  | created | prepared | joined | working | dropped => rfl
  | _ => cases h

/-- An operation that ends with a fault of its turns does not do so soundly. -/
theorem not_sound {command : Command} {fault : CacheFault} {operation : Operation}
    (hfault : fault.isRefusal = false) : ¬ Sound (.over (command.answer (.error fault)))
      (closingNotices operation (.error fault)) := by
  intro h
  cases fault with
  | cancelled =>
    -- it is not said to have failed, but it is raised, by a lenient read too
    have hraised := h.raised
    cases command <;> cases hraised
  | _ => cases h.said

variable [Store σ]

theorem Moved.isAnswered_eq_false (h : s.Moved c call e stage notices) :
    call.stage.isAnswered = false := by
  cases h with
  | drop hcreated | reject hcreated | prepare hcreated | late hcreated =>
    rw [hcreated]
    rfl
  | pass _ hr | fail _ hr => exact (CallStage.work?_of_request? hr).2
  | turn _ hstage =>
    rw [hstage]
    rfl

theorem Unfailing.sound (h : (s.step e).Unfailing) (hc : s.calls[c]? = some call)
    (hmoved : s.Moved c call e stage notices) (henters : s.Enters e c stage notices) :
    Sound stage notices where
  raised := by
    have hcount := henters.count hc fun _ stage => stage.isRaised
    rw [h.raised, isRaised_of_isAnswered hmoved.isAnswered_eq_false] at hcount
    cases hraised : stage.isRaised with
    | false => rfl
    | true =>
      rw [hraised] at hcount
      cases (Nat.add_eq_zero_iff.1 hcount.symm).2
  said := by
    have hnoted := henters.noted Notice.isFailure
    rw [h.said] at hnoted
    exact (Nat.add_eq_zero_iff.1 hnoted.symm).2

/-- Where nothing has failed, nothing had failed before. -/
theorem Unfailing.of_step (he : e.isInHouse) (h : (s.step e).Unfailing) : s.Unfailing := by
  have hraised := h.raised
  have hsaid := h.said
  rcases booked (s := s) he with ⟨c, call, stage, notices, hc, hmoved, henters⟩ | hidle
  · have hcount := henters.count hc fun _ stage => stage.isRaised
    have hnoted := henters.noted Notice.isFailure
    rw [isRaised_of_isAnswered hmoved.isAnswered_eq_false, Bool.toNat_false] at hcount
    exact ⟨by omega, by omega⟩
  · rw [hidle.count _ fun _ => rfl] at hraised
    exact ⟨hraised, Nat.eq_zero_of_le_zero (hsaid ▸ hidle.noted_le _)⟩

end

/-! ## Columns -/

/-- A column of the books: notices of a kind, with the calls that stand beside them, balance against
calls of another kind and turns of some kind. -/
structure Column where
  notes : Notice → Bool
  beside : Command → CallStage → Bool := fun _ _ => false
  against : Command → CallStage → Bool := fun _ _ => false
  due : TurnKind := fun _ _ _ => false
  notes_say : ∀ line fault, notes (.say line fault) = false := by exact fun _ _ => rfl
  beside_created : ∀ command, beside command .created = false := by exact fun _ => rfl
  against_created : ∀ command, against command .created = false := by exact fun _ => rfl

namespace Column

/-- Reads against their verdicts. -/
def verdicts (cache : Cache) : Column where
  notes := Notice.isVerdict
  against := Command.hasVerdict cache
  against_created := by simp [Command.hasVerdict, CallStage.isAnswered, CallStage.work?]

/-- The outcomes of renewals, with those under way, against the windows that were found. -/
def outcomes : Column where
  notes := Notice.isOutcome
  beside _ stage := stage.work?.any Work.isRenewal
  due := .findsWindow

/-- Conflicts against the updates that lost. -/
def conflicts : Column where
  notes := Notice.isRenewal .conflict
  due := .losesUpdate

/-- What was renewed and set against the writes that the store let through. -/
def writes : Column where
  notes := Notice.isRenewal .renewed
  beside := Command.hasSet
  beside_created command := by cases command <;> rfl
  due := .writes

/-- The operations that were counted against those that have passed their checks. -/
def operations (cache : Cache) (kind : Operation → Bool) : Column where
  notes := Notice.isOperation kind
  against command stage := command.hasPassed cache stage kind
  against_created := by simp [Command.hasPassed, CallStage.isAnswered]

variable [Store σ] (col : Column)

/-- A move of a call keeps a column balanced. -/
def Fits (s : LiveCache σ) (e : Event) (call : Call) (stage : CallStage) (notices : List Notice) :
    Prop :=
  notices.countP col.notes + (col.beside call.command stage).toNat +
      (col.against call.command call.stage).toNat =
    (col.beside call.command call.stage).toNat + (col.against call.command stage).toNat +
      (s.serves col.due e).toNat

theorem balance_step (he : e.isInHouse) (hfits : ∀ {c call stage notices}, s.calls[c]? = some call →
      s.Moved c call e stage notices → s.Enters e c stage notices →
        col.Fits s e call stage notices) :
    (s.step e).noted col.notes + (s.step e).count col.beside + s.count col.against =
      s.noted col.notes + s.count col.beside + (s.step e).count col.against +
        (s.serves col.due e).toNat := by
  rcases booked (s := s) he with ⟨c, call, stage, notices, hc, hmoved, henters⟩ | hidle
  · have hcol := hfits hc hmoved henters
    have hnoted := henters.noted col.notes
    have hbeside := henters.count hc col.beside
    have hagainst := henters.count hc col.against
    unfold Fits at hcol
    omega
  · rw [hidle.noted col.notes_say, hidle.count _ col.beside_created,
      hidle.count _ col.against_created, serves_of_none hidle.served]
    rfl

/-- What keeps the column balanced at each step may rest on something, such as that nothing fails,
which then need only be known of the end of the run. -/
theorem balance_run {P : LiveCache σ → Prop} {events : List Event}
    (hback : ∀ {s : LiveCache σ} {e : Event}, e.isInHouse → P (s.step e) → P s)
    (hfits : ∀ {s : LiveCache σ} {e : Event} {c call stage notices}, s.Suited → P (s.step e) →
      s.calls[c]? = some call → s.Moved c call e stage notices → s.Enters e c stage notices →
        col.Fits s e call stage notices)
    (hs : s.Suited) (hown : ∀ e ∈ events, e.isInHouse) (hlast : P (s.run events)) :
    (s.run events).noted col.notes + (s.run events).count col.beside + s.count col.against =
      s.noted col.notes + s.count col.beside + (s.run events).count col.against +
        s.turns col.due events := by
  induction events generalizing s with
  | nil => rfl
  | cons e events ih =>
    obtain ⟨he, hown⟩ := List.forall_mem_cons.1 hown
    have hnext : P (s.step e) := of_run hback hown hlast
    have hfirst := col.balance_step he (hfits hs hnext)
    have hrest := ih hs.step hown hlast
    rw [run_cons, turns]
    omega

end Column

/-! ## Every move keeps the books balanced -/

section
variable {c : Nat} {call : Call} {stage : CallStage} {notices : List Notice} {now : Instant}
  {command : Command} {handle : Handle} {r : Request} {reply : Except StoreFault r.call.Reply}

/-- At its end an operation is counted, and nothing else is. -/
theorem countP_closingNotices {p : Notice → Bool} (hsay : ∀ line fault, p (.say line fault) = false)
    {operation : Operation} {result : Except CacheFault (Option Bytes)} :
    (closingNotices operation result).countP p = (p (.operation operation)).toNat := by
  unfold closingNotices
  split <;> simp only [List.countP_cons, List.countP_nil, hsay] <;>
    cases p (.operation operation) <;> rfl

theorem countP_turn {p : Notice → Bool} (hsay : ∀ line fault, p (.say line fault) = false)
    (hoperation : ∀ operation, p (.operation operation) = false) {operation : Operation}
    {turn : Work.WorkTurn} :
    (turn.notices ++ turn.next.elim (fun _ => []) (closingNotices operation)).countP p =
      turn.notices.countP p := by
  rw [List.countP_append]
  cases turn.next with
  | inl work => rfl
  | inr result =>
    show _ + (closingNotices operation result).countP p = _
    rw [countP_closingNotices hsay, hoperation]
    rfl

theorem any_work?_delivered (f : Work → Bool) :
    (delivered now command handle r reply).work?.any f =
      (r.work.resume r.key now reply).next.elim f fun _ => false := by
  unfold delivered
  cases (r.work.resume r.key now reply).next <;> rfl

theorem isAnswered_delivered : (delivered now command handle r reply).isAnswered =
    (r.work.resume r.key now reply).next.elim (fun _ => false) fun _ => true := by
  unfold delivered
  cases (r.work.resume r.key now reply).next <;> rfl

/-- A sound turn does not end with a fault. -/
theorem Sound.next_ne {operation : Operation} (h : Sound (delivered now command handle r reply)
      ((r.work.resume r.key now reply).notices ++
        (r.work.resume r.key now reply).next.elim (fun _ => []) (closingNotices operation))) :
    ∀ fault, (r.work.resume r.key now reply).next ≠ .inr (.error fault) := by
  intro fault hnext
  have hsaid := h.said
  rw [delivered_of_inr hnext, hnext] at h
  rw [hnext, List.countP_append] at hsaid
  exact not_sound (Work.isRefusal_of_next hnext) ⟨h.raised, (Nat.add_eq_zero_iff.1 hsaid).2⟩

theorem Suited.suits (hs : s.Suited) (hc : s.calls[c]? = some call) (hr : call.request? = some r) :
    r.Suits s.cache call.command := hs c call r hc hr

theorem Suited.suits_of_working (hs : s.Suited) (hc : s.calls[c]? = some call)
    (hstage : call.stage = .working handle r) : r.Suits s.cache call.command :=
  hs.suits hc (by rw [Call.request?, hstage])

theorem Suited.posts (hs : s.Suited) (hc : s.calls[c]? = some call)
    (hstage : call.stage = .working handle r) (reply : Except StoreFault r.call.Reply) :
    r.work.Posts s.now reply (r.work.resume r.key s.now reply) :=
  Work.posts_resume r.work reply fun call hcall =>
    ((hs.suits_of_working hc hstage).write call hcall).1

/-! ### The kinds of calls -/

theorem hasVerdict_of_suits {cache : Cache} (h : r.Suits cache command) (stage : CallStage) :
    command.hasVerdict cache stage =
      (r.work.isRead && (stage.isAnswered || stage.work?.any Work.isRenewal)) := by
  rw [Command.hasVerdict, h.key, ← h.isRead]
  cases r.work.isRead <;> rfl

theorem hasSet_of_isAnswered (h : stage.isAnswered = false) :
    command.hasSet stage = false := by
  cases stage with
  | created | prepared | joined | working | dropped => cases command <;> rfl
  | _ => cases h

/-- Of the work that is not a read, what writes a value is a set. -/
theorem hasSet_delivered {cache : Cache} (h : r.Suits cache command)
    (hnext : ∀ fault, (r.work.resume r.key now reply).next ≠ .inr (.error fault)) :
    command.hasSet (delivered now command handle r reply) =
      (!r.work.isRead && r.call.value?.isSome && reply.isOk) := by
  rcases r with ⟨operation, key, work⟩
  cases work with
  | read stage =>
    cases command with
    | set => cases h.isRead
    | _ => rfl
  | write call =>
    have hvalue := (h.write call rfl).2
    cases reply with
    | error fault => exact absurd rfl (hnext _)
    | ok n =>
      cases command with
      | set =>
        show true = (true && call.value?.isSome && true)
        rw [hvalue.2 rfl]
        rfl
      | _ =>
        have hnone : call.value?.isSome = false :=
          Bool.eq_false_iff.2 fun hsome => by cases hvalue.1 hsome
        show false = (true && call.value?.isSome && true)
        rw [hnone]
        rfl

theorem hasPassed_of_isAnswered {cache : Cache} {kind : Operation → Bool}
    (h : stage.isAnswered = false) : command.hasPassed cache stage kind = false := by
  rw [Command.hasPassed, h, Bool.and_false, Bool.false_and]

/-- What has not been refused has passed. -/
theorem hasPassed_of_suits {cache : Cache} {kind : Operation → Bool}
    {result : Except CacheFault (Option Bytes)} (h : r.Suits cache command)
    (hresult : ∀ fault, result = .error fault → fault.isRefusal = false) :
    command.hasPassed cache (.over (command.answer result)) kind = kind r.operation := by
  have hrefused : (CallStage.over (command.answer result)).isRefused = false := by
    cases hanswer : command.answer result with
    | ok => rfl
    | error fault => exact hresult fault (Command.eq_error_of_answer hanswer)
  rw [Command.hasPassed, h.key, ← h.operation, hrefused]
  cases kind r.operation <;> rfl

/-! ### The moves -/

namespace Column

variable [Store σ]

theorem fits_conflicts (hs : s.Suited) (hc : s.calls[c]? = some call)
    (h : s.Moved c call e stage notices) : conflicts.Fits s e call stage notices := by
  cases h with
  | drop | reject | prepare => rfl
  | late =>
    rw [Fits, countP_closingNotices conflicts.notes_say]
    rfl
  | pass hserved =>
    rw [Fits, serves_of_none hserved]
    rfl
  | fail hserved =>
    rw [Fits, serves_of_none hserved, countP_closingNotices conflicts.notes_say]
    rfl
  | @turn handle r reply hserved hstage hreply =>
    have hposts := hs.posts hc hstage reply
    subst hreply
    rw [Fits, serves_of_some hserved, countP_turn conflicts.notes_say fun _ => rfl]
    exact hposts.conflicts.trans (Nat.zero_add _).symm

/-- A read goes on to renew only where it has found a window. -/
theorem fits_outcomes (hs : s.Suited) (hc : s.calls[c]? = some call)
    (h : s.Moved c call e stage notices) (hsound : Sound stage notices) :
    outcomes.Fits s e call stage notices := by
  have hrenewing : ∀ command stage,
      outcomes.beside command stage = stage.work?.any Work.isRenewal := fun _ _ => rfl
  cases h with
  | drop hcreated | reject hcreated =>
    rw [Fits, hrenewing, hrenewing, hcreated]
    rfl
  | @prepare r hcreated hr =>
    rw [Fits, hrenewing, hrenewing, hcreated]
    show 0 + r.work.isRenewal.toNat + 0 = 0
    rw [(Command.fresh_of_request hr).1]
    rfl
  | late hcreated hr => exact (not_sound rfl hsound).elim
  | pass hserved hr hr' =>
    rw [Fits, hrenewing, hrenewing, serves_of_none hserved, (CallStage.work?_of_request? hr).1,
      (CallStage.work?_of_request? hr').1]
    exact Nat.zero_add _
  | fail hserved hr hfault => exact (not_sound hfault hsound).elim
  | @turn handle r reply hserved hstage hreply =>
    have hposts := hs.posts hc hstage reply
    have hbalance := hposts.outcomes hsound.next_ne
    subst hreply
    rw [Fits, hrenewing, hrenewing, serves_of_some hserved, hstage, any_work?_delivered,
      countP_turn outcomes.notes_say fun _ => rfl]
    exact hbalance

/-- A column in which calls are all there is to balance. -/
theorem fits_of_against {col : Column} (hbeside : ∀ command stage, col.beside command stage = false)
    (hdue : ∀ now r reply, col.due now r reply = false)
    (h : notices.countP col.notes + (col.against call.command call.stage).toNat =
      (col.against call.command stage).toNat) : col.Fits s e call stage notices := by
  have hserves : s.serves col.due e = false := by
    unfold serves
    cases s.served? e with
    | none => rfl
    | some r => exact hdue _ r _
  rw [Fits, hbeside, hbeside, hserves, Bool.toNat_false]
  omega

/-- A verdict is noted before a read goes on to renew, or else at its end. -/
theorem fits_verdicts (hs : s.Suited) (hc : s.calls[c]? = some call)
    (h : s.Moved c call e stage notices) (hsound : Sound stage notices) :
    (verdicts s.cache).Fits s e call stage notices := by
  apply fits_of_against (fun _ _ => rfl) (fun _ _ _ => rfl)
  show notices.countP Notice.isVerdict + (call.command.hasVerdict s.cache call.stage).toNat =
    (call.command.hasVerdict s.cache stage).toNat
  cases h with
  | drop hcreated =>
    rw [hcreated]
    simp [Command.hasVerdict, CallStage.isAnswered, CallStage.work?]
  | reject hcreated hr =>
    rw [hcreated]
    rcases Command.refused_of_request hr with hkey | ⟨hread, -⟩
    · simp [Command.hasVerdict, hkey]
    · simp [Command.hasVerdict, hread]
  | prepare hcreated hr =>
    rw [hcreated]
    simp [Command.hasVerdict, CallStage.isAnswered, CallStage.work?,
      (Command.fresh_of_request hr).1]
  | late hcreated hr => exact (not_sound rfl hsound).elim
  | pass hserved hr hr' =>
    obtain ⟨hwork, hanswered⟩ := CallStage.work?_of_request? hr
    obtain ⟨hwork', hanswered'⟩ := CallStage.work?_of_request? hr'
    dsimp only at hwork' hanswered'
    rw [Command.hasVerdict, Command.hasVerdict, hwork, hanswered, hwork', hanswered']
    exact Nat.zero_add _
  | fail hserved hr hfault => exact (not_sound hfault hsound).elim
  | @turn handle r reply hserved hstage hreply =>
    have hsuits := hs.suits_of_working hc hstage
    have hbalance := (hs.posts hc hstage reply).verdicts hsound.next_ne
    rw [countP_turn (fun _ _ => rfl) fun _ => rfl, hasVerdict_of_suits hsuits,
      hasVerdict_of_suits hsuits, hstage, isAnswered_delivered, any_work?_delivered]
    refine hbalance.trans ?_
    cases (r.work.resume r.key s.now reply).next <;> rfl

/-- What is let through is the renewal of a read, or it is a set, which ends with it. -/
theorem fits_writes (hs : s.Suited) (hc : s.calls[c]? = some call)
    (h : s.Moved c call e stage notices) (hsound : Sound stage notices) :
    writes.Fits s e call stage notices := by
  have hset : writes.beside = Command.hasSet := rfl
  rw [Fits, hset, hasSet_of_isAnswered h.isAnswered_eq_false]
  cases h with
  | drop | prepare =>
    rw [hasSet_of_isAnswered rfl]
    rfl
  | reject hcreated hr =>
    cases call.command <;> rfl
  | late hcreated hr => exact (not_sound rfl hsound).elim
  | pass hserved hr hr' =>
    rw [hasSet_of_isAnswered (CallStage.work?_of_request? hr').2, serves_of_none hserved]
    rfl
  | fail hserved hr hfault => exact (not_sound hfault hsound).elim
  | @turn handle r reply hserved hstage hreply =>
    have hsuits := hs.suits_of_working hc hstage
    have hbalance := (hs.posts hc hstage reply).renewals hsound.next_ne
    have hdue : s.serves writes.due (.perform c) = (r.call.value?.isSome && reply.isOk) := by
      rw [serves_of_some hserved, hreply]
      rfl
    rw [countP_turn writes.notes_say fun _ => rfl, hdue, hasSet_delivered hsuits hsound.next_ne]
    show _ + _ + 0 = 0 + 0 + _
    rw [show writes.notes = Notice.isRenewal .renewed from rfl, hbalance]
    cases r.work.isRead <;> simp [Request.call]

theorem fits_operations (kind : Operation → Bool) (hs : s.Suited) (hc : s.calls[c]? = some call)
    (h : s.Moved c call e stage notices) :
    (operations s.cache kind).Fits s e call stage notices := by
  apply fits_of_against (fun _ _ => rfl) (fun _ _ _ => rfl)
  show notices.countP (Notice.isOperation kind) +
      (call.command.hasPassed s.cache call.stage kind).toNat =
    (call.command.hasPassed s.cache stage kind).toNat
  rw [hasPassed_of_isAnswered h.isAnswered_eq_false]
  cases h with
  | drop | prepare =>
    rw [hasPassed_of_isAnswered rfl]
    rfl
  | @reject fault hcreated hr =>
    have hrefused : call.command.hasPassed s.cache (.over (call.command.answer (.error fault)))
        kind = false := by
      rcases Command.refused_of_request hr with hkey | ⟨-, hanswer, hrefusal⟩
      · simp [Command.hasPassed, hkey]
      · rw [hanswer]
        simp [Command.hasPassed, CallStage.isRefused, hrefusal]
    rw [hrefused]
    rfl
  | late hcreated hr =>
    rw [hasPassed_of_suits (Command.suits_of_request hr) (by rintro fault ⟨⟩; rfl),
      countP_closingNotices fun _ _ => rfl]
    rfl
  | pass hserved hr hr' =>
    rw [hasPassed_of_isAnswered (CallStage.work?_of_request? hr').2]
    rfl
  | fail hserved hr hfault =>
    rw [hasPassed_of_suits (hs.suits hc hr) (by rintro fault ⟨⟩; exact hfault),
      countP_closingNotices fun _ _ => rfl]
    rfl
  | @turn handle r reply hserved hstage hreply =>
    have hsuits := hs.suits_of_working hc hstage
    rw [List.countP_append, (hs.posts hc hstage reply).operations kind]
    cases hnext : (r.work.resume r.key s.now reply).next with
    | inl work =>
      rw [hasPassed_of_isAnswered (by rw [isAnswered_delivered, hnext]; rfl)]
      rfl
    | inr result =>
      have hresult : ∀ fault, result = .error fault → fault.isRefusal = false := by
        rintro fault rfl
        exact Work.isRefusal_of_next hnext
      rw [delivered_of_inr hnext, hasPassed_of_suits hsuits hresult]
      exact (Nat.zero_add _).trans (countP_closingNotices fun _ _ => rfl)

end Column

end

end LiveCache

end SlidingCache
