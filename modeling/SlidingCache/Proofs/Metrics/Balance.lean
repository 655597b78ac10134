import SlidingCache.Proofs.Metrics.Columns

/-!
# The books balance

Whatever happens to a cache over a store in memory to which all writers come through it, its
counters account for it when all calls are over: for the updates that lost and the operations that
passed their checks, and if nothing has failed, for every read, for every window that was found and
for every revision of the store (`LiveCache.balanced_run`). That nothing has failed is more than
that nobody was raised a fault, since a lenient read hides a failure
(`LiveCache.balanced_run_fails_hidden`).
-/

namespace SlidingCache

namespace LiveCache

section
variable {σ : Type} [Store σ] {s : LiveCache σ} {e : Event}

/-! ## Concessions -/

/-- Whether a read goes on after its write has lost. -/
def isBeaten (_ : Command) (stage : CallStage) : Bool := stage.work?.any Work.isBeaten

theorem Moved.concessions {c : Nat} {call : Call} {stage : CallStage} {notices : List Notice}
    (hs : s.Suited) (hc : s.calls[c]? = some call) (h : s.Moved c call e stage notices) :
    notices.countP (Notice.isRenewal .conceded) + (isBeaten call.command stage).toNat ≤
      (isBeaten call.command call.stage).toNat + (s.serves .losesUpdate e).toNat := by
  cases h with
  | drop | reject => exact Nat.zero_le _
  | @prepare r hcreated hr =>
    show 0 + r.work.isBeaten.toNat ≤ _
    rw [(Command.fresh_of_request hr).2]
    exact Nat.zero_le _
  | late | fail =>
    rw [countP_closingNotices fun _ _ => rfl]
    exact Nat.zero_le _
  | pass hserved hr hr' =>
    rw [isBeaten, isBeaten, (CallStage.work?_of_request? hr).1, (CallStage.work?_of_request? hr').1]
    exact (Nat.zero_add _).trans_le (Nat.le_add_right _ _)
  | @turn handle r reply hserved hstage hreply =>
    have hposts := hs.posts hc hstage reply
    have hconcessions := hposts.concessions
    have hlost : s.serves .losesUpdate (.perform c) = r.call.isLostUpdate reply := by
      rw [serves_of_some hserved, hreply]
      rfl
    rw [countP_turn (fun _ _ => rfl) fun _ => rfl, isBeaten, isBeaten, any_work?_delivered, hstage,
      hlost, Nat.add_comm (Bool.toNat _)]
    exact hposts.conflicts ▸ hconcessions

/-- Nothing is conceded without an update that has lost. -/
theorem concessions_run {events : List Event} (hs : s.Suited) (hown : ∀ e ∈ events, e.isInHouse) :
    (s.run events).noted (Notice.isRenewal .conceded) + (s.run events).count isBeaten ≤
      s.noted (Notice.isRenewal .conceded) + s.count isBeaten + s.turns .losesUpdate events := by
  induction events generalizing s with
  | nil => exact Nat.le_refl _
  | cons e events ih =>
    obtain ⟨he, hown⟩ := List.forall_mem_cons.1 hown
    have hrest := ih (s := s.step e) hs.step hown
    rw [run_cons, turns]
    rcases booked (s := s) he with ⟨c, call, stage, notices, hc, hmoved, henters⟩ | hidle
    · have hmove := hmoved.concessions hs hc
      have hnoted := henters.noted (Notice.isRenewal .conceded)
      have hcount := henters.count hc isBeaten
      omega
    · rw [hidle.noted fun _ _ => rfl, hidle.count _ fun _ => rfl] at hrest
      omega

end

end LiveCache

/-! ## Revisions -/

namespace MemoryStore

variable {now : Instant} {s : MemoryStore} {call : StoreCall}

theorem isOk_write {key : Text} {value : Bytes} {ttl : Option Duration}
    (h : ∀ fault, (s.write key value ttl now).1 = .error fault → ∃ key n, fault = .conflict key n) :
    (s.write key value ttl now).1.isOk := by
  cases hreply : (s.write key value ttl now).1 with
  | ok => rfl
  | error fault =>
    obtain ⟨k, n, rfl⟩ := h fault hreply
    exact absurd hreply write_ne_conflict

/-- The revision is the number of the values that were written, unless a write fails otherwise than
by a conflict. -/
theorem revision_perform_eq (h : call.value?.isSome → ∀ fault,
      (Store.perform now call s).1 = .error fault → ∃ key n, fault = .conflict key n) :
    (Store.perform now call s).2.revision =
      s.revision + (call.value?.isSome && (Store.perform now call s).1.isOk).toNat := by
  have hsame : ∀ {n : Revision}, n = s.revision → n = s.revision + (false.toNat : Int) :=
    fun hn => hn.trans (Int.add_zero _).symm
  cases call with
  | get key =>
    apply hsame
    simp only [Store.perform, get]
    split
    · rfl
    · exact revision_live
  | delete key expected =>
    apply hsame
    simp only [Store.perform, delete]
    split
    · rfl
    · split
      · exact revision_live
      · split <;> exact revision_live
  | put key value ttl =>
    have hfault := h rfl
    simp only [Store.perform, put] at hfault ⊢
    split at hfault
    · obtain ⟨k, n, hconflict⟩ := hfault _ rfl
      cases hconflict
    · rw [isOk_write hfault, revision_write]
      rfl
  | update key value expected ttl =>
    have hfault := h rfl
    simp only [Store.perform, update] at hfault ⊢
    split at hfault
    · obtain ⟨k, n, hconflict⟩ := hfault _ rfl
      cases hconflict
    · split at hfault
      · rename_i hrevision
        rw [if_pos hrevision, isOk_write hfault, revision_write, revision_live]
        rfl
      · rename_i hrevision
        rw [if_neg hrevision]
        exact hsame revision_live

end MemoryStore

/-- A turn that writes a value fails, unless the write is let through or lost. -/
theorem Work.conflict_of_value? {key : Text} {now : Instant} {work : Work}
    {reply : Except StoreFault (work.call key).Reply} {fault : StoreFault}
    (hnext : ∀ fault, (work.resume key now reply).next ≠ .inr (.error fault))
    (hvalue : (work.call key).value?.isSome) (hreply : reply = .error fault) :
    ∃ key n, fault = .conflict key n := by
  subst hreply
  cases work with
  | write call => exact absurd rfl (hnext _)
  | read stage =>
    cases stage with
    | renewing =>
      cases fault with
      | conflict k n => exact ⟨k, n, rfl⟩
      | _ => exact absurd rfl (hnext _)
    | _ => cases hvalue

namespace LiveCache

section
variable {s : LiveCache MemoryStore} {e : Event} {events : List Event}

theorem access?_perform {σ : Type} {s : LiveCache σ} {c : Nat} : s.access? (.perform c) =
    (s.served? (.perform c)).map fun r => ⟨s.store, s.now, r.call⟩ := by
  simp only [access?, served?]
  cases s.calls[c]? with
  | none => rfl
  | some call =>
    rcases call with ⟨command, hasTime, stage, interruption⟩
    cases stage with
    | working handle r => cases interruption <;> rfl
    | _ => rfl

theorem revision_of_none (he : e.isInHouse) (h : s.served? e = none) :
    (s.step e).store.revision = s.store.revision := by
  cases ha : s.access? e with
  | none => rw [store_step_of_none ha]
  | some a =>
    rw [(step_of_access? ha).2.1]
    cases e with
    | rival call =>
      cases ha
      have hnone : call.value?.isSome = false := by rw [Option.isSome_eq_false_iff]; exact he
      refine (MemoryStore.revision_perform_eq fun hsome => ?_).trans ?_
      · exact absurd hsome (Bool.eq_false_iff.1 hnone)
      · rw [hnone]
        exact Int.add_zero _
    | perform c =>
      rw [access?_perform, h] at ha
      cases ha
    | _ => cases ha

theorem revision_step (he : e.isInHouse) (h : (s.step e).Unfailing) :
    (s.step e).store.revision = s.store.revision + ((s.serves .writes e).toNat : Int) := by
  have hnone : s.served? e = none → (s.step e).store.revision =
      s.store.revision + ((s.serves .writes e).toNat : Int) := by
    intro hserved
    rw [revision_of_none he hserved, serves_of_none hserved]
    exact (Int.add_zero _).symm
  rcases booked (s := s) he with ⟨c, call, stage, notices, hc, hmoved, henters⟩ | hidle
  · have hsound := h.sound hc hmoved henters
    cases hmoved with
    | drop | reject | prepare | late => exact hnone rfl
    | pass hserved | fail hserved => exact hnone hserved
    | @turn handle r reply hserved hstage hreply =>
      subst hreply
      have haccess : s.access? (.perform c) = some ⟨s.store, s.now, r.call⟩ := by
        rw [access?_perform, hserved]
        rfl
      have hstore := (step_of_access? haccess).2.1
      rw [hstore, serves_of_some hserved]
      exact MemoryStore.revision_perform_eq fun hvalue fault =>
        Work.conflict_of_value? hsound.next_ne hvalue
  · exact hnone hidle.served

/-- If nothing fails, the revision is the number of the writes that the store has let through. -/
theorem revision_run (hown : ∀ e ∈ events, e.isInHouse) (h : (s.run events).Unfailing) :
    (s.run events).store.revision = s.store.revision + (s.turns .writes events : Int) := by
  induction events generalizing s with
  | nil => exact (Int.add_zero _).symm
  | cons e events ih =>
    obtain ⟨he, hown⟩ := List.forall_mem_cons.1 hown
    have hfirst := revision_step he (of_run (fun he h => h.of_step he) hown h)
    have hrest := ih (s := s.step e) hown h
    rw [run_cons, hrest, hfirst, turns, Int.natCast_add, Int.add_assoc]

end

/-! ## The books of a session -/

section
variable {σ : Type} {s : LiveCache σ} {events : List Event}

theorem count_eq_zero {p : Command → CallStage → Bool}
    (h : ∀ call ∈ s.calls, p call.command call.stage = false) : s.count p = 0 := by
  rw [count, List.countP_eq_zero]
  intro call hcall
  rw [h call hcall]
  exact Bool.false_ne_true

theorem count_none : s.count (fun _ _ => false) = 0 := count_eq_zero fun _ _ => rfl

theorem work?_of_isOver {call : Call} (h : call.isOver) : call.stage.work? = none := by
  rcases call with ⟨command, hasTime, stage, interruption⟩
  cases stage with
  | created | prepared | joined | working => cases h
  | _ => rfl

/-- When all is over, the reads with a verdict are those that are over. -/
theorem count_hasVerdict {cache : Cache} (h : ∀ call ∈ s.calls, call.isOver) :
    s.count (Command.hasVerdict cache) = s.count (Command.hasRead cache) := by
  refine List.countP_congr fun call hcall => ?_
  rw [Command.hasVerdict, work?_of_isOver (h call hcall)]
  simp [Command.hasRead]

theorem suited_of_start (h : s.calls = []) : s.Suited := by
  intro c call r hc
  rw [h] at hc
  cases hc

theorem count_of_start (h : s.calls = []) {p : Command → CallStage → Bool} : s.count p = 0 := by
  rw [count, h]
  rfl

variable [Store σ]

/-- A column in which every move fits is balanced when a session has gone on for a while. -/
theorem Column.balance_of_start (col : Column) {P : LiveCache σ → Prop}
    (hback : ∀ {s : LiveCache σ} {e : Event}, e.isInHouse → P (s.step e) → P s)
    (hfits : ∀ {s : LiveCache σ} {e : Event} {c call stage notices}, s.Suited → P (s.step e) →
      s.calls[c]? = some call → s.Moved c call e stage notices → s.Enters e c stage notices →
        col.Fits s e call stage notices)
    (hcalls : s.calls = []) (hjournal : s.journal = []) (hown : ∀ e ∈ events, e.isInHouse)
    (hlast : P (s.run events)) :
    (s.run events).noted col.notes + (s.run events).count col.beside =
      (s.run events).count col.against + s.turns col.due events := by
  have hrun := col.balance_run hback hfits (suited_of_start hcalls) hown hlast
  have hnoted : s.noted col.notes = 0 := by
    rw [LiveCache.noted, hjournal]
    rfl
  rw [count_of_start hcalls, count_of_start hcalls, hnoted] at hrun
  omega

theorem turns_none : s.turns (fun _ _ _ => false) events = 0 := by
  induction events generalizing s with
  | nil => rfl
  | cons e events ih =>
    rw [turns, ih, serves]
    cases s.served? e <;> rfl

section
variable (hcalls : s.calls = []) (hjournal : s.journal = []) (hown : ∀ e ∈ events, e.isInHouse)
include hcalls hjournal hown

/-- Every update that loses is a conflict. -/
theorem conflicts_run :
    (s.run events).noted (Notice.isRenewal .conflict) = s.turns .losesUpdate events := by
  have h := Column.conflicts.balance_of_start (P := fun _ => True) (fun _ _ => trivial)
    (fun hs _ hc hmoved _ => Column.fits_conflicts hs hc hmoved) hcalls hjournal hown trivial
  have hbeside : (s.run events).count Column.conflicts.beside = 0 := count_none
  have hagainst : (s.run events).count Column.conflicts.against = 0 := count_none
  rw [hbeside, hagainst, Nat.zero_add] at h
  exact h

/-- Every operation that passes its checks is counted when it is over. -/
theorem operations_run (kind : Operation → Bool) : (s.run events).noted (Notice.isOperation kind) =
    (s.run events).count fun command stage => command.hasPassed s.cache stage kind := by
  have h := (Column.operations s.cache kind).balance_of_start (P := fun t => t.cache = s.cache)
    (fun _ h => cache_step.symm.trans h)
    (fun hs hcache hc hmoved _ => (cache_step.symm.trans hcache) ▸
      Column.fits_operations kind hs hc hmoved) hcalls hjournal hown (cache_run events)
  have hbeside : (s.run events).count (Column.operations s.cache kind).beside = 0 := count_none
  have hturns : s.turns (Column.operations s.cache kind).due events = 0 := turns_none
  rw [hbeside, hturns] at h
  exact h

variable (hfine : (s.run events).Unfailing)
include hfine

/-- Every read has one verdict. -/
theorem verdicts_run : (s.run events).noted Notice.isVerdict =
    (s.run events).count (Command.hasVerdict s.cache) := by
  have h := (Column.verdicts s.cache).balance_of_start
    (P := fun t => t.cache = s.cache ∧ t.Unfailing)
    (fun he h => ⟨cache_step.symm.trans h.1, h.2.of_step he⟩)
    (fun hs h hc hmoved henters => (cache_step.symm.trans h.1) ▸
      Column.fits_verdicts hs hc hmoved (h.2.sound hc hmoved henters))
    hcalls hjournal hown ⟨cache_run events, hfine⟩
  have hbeside : (s.run events).count (Column.verdicts s.cache).beside = 0 := count_none
  have hturns : s.turns (Column.verdicts s.cache).due events = 0 := turns_none
  rw [hbeside, hturns] at h
  exact h

/-- Every window that is found has one outcome, or its renewal is under way. -/
theorem outcomes_run : (s.run events).noted Notice.isOutcome +
    (s.run events).count (fun _ stage => stage.work?.any Work.isRenewal) =
      s.turns .findsWindow events := by
  have h := Column.outcomes.balance_of_start (fun he h => h.of_step he)
    (fun hs h hc hmoved henters => Column.fits_outcomes hs hc hmoved (h.sound hc hmoved henters))
    hcalls hjournal hown hfine
  have hagainst : (s.run events).count Column.outcomes.against = 0 := count_none
  rw [hagainst, Nat.zero_add] at h
  exact h

/-- Every write that is let through is a renewal or a set. -/
theorem writes_run : (s.run events).noted (Notice.isRenewal .renewed) +
    (s.run events).count Command.hasSet = s.turns .writes events := by
  have h := Column.writes.balance_of_start (fun he h => h.of_step he)
    (fun hs h hc hmoved henters => Column.fits_writes hs hc hmoved (h.sound hc hmoved henters))
    hcalls hjournal hown hfine
  have hagainst : (s.run events).count Column.writes.against = 0 := count_none
  rw [hagainst, Nat.zero_add] at h
  exact h

end

end

/-- What the counters of a run say of its operations and of the updates that it lost. -/
structure Counted (s : LiveCache MemoryStore) (events : List Event) (c : Counters) : Prop where
  conflicts : c.renewal .conflict = s.turns .losesUpdate events
  concessions : c.renewal .conceded ≤ c.renewal .conflict
  operations (o : Operation) : c.operation o =
    (s.run events).count fun command stage => command.hasPassed s.cache stage (· = o)
  total : Counters.total c.operations =
    (s.run events).count fun command stage => command.hasPassed s.cache stage fun _ => true

/-- What the counters of a run say of its reads and of the store, if nothing fails. -/
structure Balanced (s : LiveCache MemoryStore) (events : List Event) (c : Counters) : Prop where
  reads : c.hits + c.misses = (s.run events).count (Command.hasRead s.cache)
  renewals : c.renewal .renewed + c.renewal .skipped + c.renewal .conceded =
    s.turns .findsWindow events
  revision : (s.run events).store.revision =
    ((s.run events).count Command.hasSet + c.renewal .renewed : Nat)

variable {s : LiveCache MemoryStore} {events : List Event} {cache : Cache} {backend : Backend}
  {now : Instant}

/-- **The books balance.** Whatever happens to a cache over a store in memory to which all writers
come through the cache: when all calls are over, conflicts are the updates that lost, and at least
as many as concessions, and the operations are those that passed their checks. If nothing has
failed, there is a hit or a miss for every read, an outcome for every window that was found, and a
revision for every value that was set or renewed. -/
theorem balanced_run (hs : s = { cache, backend, store := default, now })
    (hown : ∀ e ∈ events, e.isInHouse) (hover : ∀ call ∈ (s.run events).calls, call.isOver) :
    s.Counted events (Counters.ofJournal (s.run events).journal) ∧
      ((s.run events).Unfailing →
        s.Balanced events (Counters.ofJournal (s.run events).journal)) := by
  have hcalls : s.calls = [] := by rw [hs]
  have hjournal : s.journal = [] := by rw [hs]
  have hconflicts := conflicts_run hcalls hjournal hown
  have hoperations := operations_run hcalls hjournal hown
  have hconceded : (s.run events).noted (Notice.isRenewal .conceded) ≤
      (s.run events).noted (Notice.isRenewal .conflict) := by
    have h := concessions_run (suited_of_start hcalls) hown
    have hnoted : s.noted (Notice.isRenewal .conceded) = 0 := by
      rw [LiveCache.noted, hjournal]
      rfl
    rw [hnoted, count_of_start hcalls, ← hconflicts] at h
    omega
  constructor
  · exact {
      conflicts := (Counters.renewal_ofJournal _ _).trans hconflicts
      concessions := by
        rw [Counters.renewal_ofJournal, Counters.renewal_ofJournal]
        exact hconceded
      operations := fun o => (Counters.operation_ofJournal _ o).trans (hoperations _)
      total := (Counters.total_ofJournal _).trans (hoperations _) }
  · intro hfine
    have hverdicts := verdicts_run hcalls hjournal hown hfine
    have houtcomes := outcomes_run hcalls hjournal hown hfine
    have hwrites := writes_run hcalls hjournal hown hfine
    have hrevision := revision_run hown hfine
    have hnone : (s.run events).count (fun _ stage => stage.work?.any Work.isRenewal) = 0 :=
      count_eq_zero fun call hcall => by rw [work?_of_isOver (hover call hcall)]; rfl
    have hempty : s.store.revision = 0 := by
      rw [hs]
      rfl
    exact {
      reads := by
        rw [Counters.hits_ofJournal, Counters.misses_ofJournal, ← Notice.countP_isVerdict,
          ← count_hasVerdict hover]
        exact hverdicts
      renewals := by
        rw [Counters.renewal_ofJournal, Counters.renewal_ofJournal, Counters.renewal_ofJournal,
          ← Notice.countP_isOutcome, ← houtcomes, hnone]
        rfl
      revision := by
        rw [Counters.renewal_ofJournal, hrevision, hempty, ← hwrites, Nat.add_comm]
        exact Int.zero_add _ }

/-- A value with a window that is read three times at once, another key, and a set that is refused.
Of the readers one renews at once, one loses and renews after it, and one loses again. -/
def threeReaders : List Event :=
  [.start (.set "k" [0x76] { sliding := some ⟨700000, by decide⟩ }) true, .start (.get "k") true,
    .start (.tryGet "k" []) true, .start (.get "k") true, .start (.refresh "j") true,
    .start (.set "k" [0x77] { absolute := some default }) true] ++
  [.begin 0, .ask 0, .beginAttempt 0, .endAttempt 0 (.opened 0), .release 0, .wake 0, .perform 0] ++
  [.begin 1, .ask 1, .begin 2, .ask 2, .begin 3, .ask 3, .begin 4, .ask 4, .begin 5] ++
  [.perform 1, .perform 2, .perform 3, .perform 1, .perform 2, .perform 3, .perform 2, .perform 3,
    .perform 3, .perform 2, .perform 4]

theorem balanced_run_threeReaders :
    let s : LiveCache MemoryStore :=
      { cache := default, backend := ⟨"demo", false⟩, store := default, now := default }
    let c := Counters.ofJournal (s.run threeReaders).journal
    c.hits = 3 ∧ c.misses = 1 ∧ c.renewal .renewed = 2 ∧ c.renewal .conceded = 1 ∧
      c.renewal .conflict = 3 ∧ Counters.total c.operations = 5 ∧ s.Counted threeReaders c ∧
        s.Balanced threeReaders c := by
  intro s c
  have hown : ∀ e ∈ threeReaders, e.isInHouse := by decide
  have hover : ∀ call ∈ (s.run threeReaders).calls, call.isOver := by decide +kernel
  have hfine : (s.run threeReaders).Unfailing := ⟨by decide +kernel, by decide +kernel⟩
  obtain ⟨hcounted, hbalanced⟩ := balanced_run rfl hown hover
  exact ⟨by decide +kernel, by decide +kernel, by decide +kernel, by decide +kernel,
    by decide +kernel, by decide +kernel, hcounted, hbalanced hfine⟩

/-- A lenient read without time. -/
def untimely : List Event := [.start (.tryGet "k" []) false, .begin 0]

/-- A window of two microseconds, which the store keeps for a millisecond, and a lenient read. -/
def onTheBrink : List Event :=
  [.start (.set "k" [0x76] { sliding := some ⟨2, by decide⟩ }) true, .begin 0, .ask 0,
    .beginAttempt 0, .endAttempt 0 (.opened 0), .release 0, .wake 0, .perform 0,
    .advance ⟨800, by decide⟩, .start (.tryGet "k" []) true, .begin 1, .ask 1, .perform 1,
    .perform 1]

/-- A lenient read hides that it has failed. If it has no time, it neither hits nor misses. If it
fails when it renews a window, just before the calendar ends, then this has no outcome, and a
revision is gone. -/
theorem balanced_run_fails_hidden :
    let s : LiveCache MemoryStore :=
      { cache := default, backend := ⟨"demo", false⟩, store := default, now := default }
    let late : LiveCache MemoryStore := { s with now := ⟨315537897599998700, some .utc, by decide⟩ }
    let c := Counters.ofJournal (s.run untimely).journal
    let c' := Counters.ofJournal (late.run onTheBrink).journal
    ((∀ e ∈ untimely, e.isInHouse) ∧ (∀ call ∈ (s.run untimely).calls, call.isOver) ∧
      (s.run untimely).count (fun _ stage => stage.isRaised) = 0 ∧
      c.hits + c.misses = 0 ∧ (s.run untimely).count (Command.hasRead s.cache) = 1) ∧
    (∀ e ∈ onTheBrink, e.isInHouse) ∧ (∀ call ∈ (late.run onTheBrink).calls, call.isOver) ∧
      (late.run onTheBrink).count (fun _ stage => stage.isRaised) = 0 ∧
      c'.renewal .renewed + c'.renewal .skipped + c'.renewal .conceded = 0 ∧
      late.turns .findsWindow onTheBrink = 1 ∧
      (late.run onTheBrink).count Command.hasSet + c'.renewal .renewed = 1 ∧
      (late.run onTheBrink).store.revision = 2 := by
  intro s late c c'
  exact ⟨⟨by decide, by decide +kernel, by decide +kernel, by decide +kernel, by decide +kernel⟩,
    by decide, by decide +kernel, by decide +kernel, by decide +kernel, by decide +kernel,
    by decide +kernel, by decide +kernel⟩

end LiveCache

end SlidingCache
