import SlidingCache.Metrics.Counters
import SlidingCache.Proofs.Sequence.Verdicts

/-!
# What is noted, turn by turn

`ReadStage.Notes` lists the turns of a read: what each of them notes and what comes next. From it
follow the columns of the books that are kept of reads: that the verdict is noted once
(`Notes.verdicts`), that a renewal has one outcome (`Notes.outcomes`), and how conflicts,
concessions and renewals go with what the store answers. `Work.posts_resume` says it of all work,
of which a set and a remove note nothing before their end.

The counters of a journal are the numbers of its notices (`Counters.hits_ofJournal` and the lemmas
after it).
-/

namespace SlidingCache

/-! ## Notices -/

namespace Notice

/-- Whether a renewal is said to have gone as labelled. -/
def isRenewal (label : RenewalLabel) : Notice → Bool
  | renewal l => l = label
  | _ => false

/-- Whether a renewal is said to be over. -/
def isOutcome : Notice → Bool
  | renewal .renewed | renewal .skipped | renewal .conceded => true
  | _ => false

/-- Whether an operation of some kind is said to be over. -/
def isOperation (kind : Operation → Bool) : Notice → Bool
  | operation o => kind o
  | _ => false

theorem countP_isVerdict (notices : List Remark) :
    notices.countP (·.notice.isVerdict) =
      notices.countP (·.notice.isHit) + notices.countP (·.notice.isMiss) := by
  induction notices with
  | nil => rfl
  | cons remark notices ih =>
    simp only [List.countP_cons, ih]
    cases remark.notice <;> simp [isVerdict, isHit, isMiss] <;> omega

theorem countP_isOutcome (notices : List Remark) :
    notices.countP (·.notice.isOutcome) =
      notices.countP (·.notice.isRenewal .renewed) + notices.countP (·.notice.isRenewal .skipped) +
        notices.countP (·.notice.isRenewal .conceded) := by
  induction notices with
  | nil => rfl
  | cons remark notices ih =>
    simp only [List.countP_cons, ih]
    cases remark.notice with
    | renewal label => cases label <;> simp [isOutcome, isRenewal] <;> omega
    | _ => simp [isOutcome, isRenewal]

/-- Verdicts are not counted as anything else. -/
theorem countP_eq_zero_of_isVerdict {p : Notice → Bool} {notices : List Notice}
    (h : ∀ n ∈ notices, n.isVerdict) (hp : ∀ n, n.isVerdict → p n = false) :
    notices.countP p = 0 := by
  rw [List.countP_eq_zero]
  intro n hn
  rw [hp n (h n hn)]
  exact Bool.false_ne_true

theorem isRenewal_of_isVerdict {label : RenewalLabel} {n : Notice} (h : n.isVerdict) :
    n.isRenewal label = false := by
  cases n with
  | renewal => cases h
  | _ => rfl

theorem isOperation_of_isVerdict {kind : Operation → Bool} {n : Notice} (h : n.isVerdict) :
    n.isOperation kind = false := by
  cases n with
  | operation => cases h
  | _ => rfl

end Notice

/-! ## Counters -/

namespace Counters

/-- How many renewals went as labelled. -/
def renewal (c : Counters) (label : RenewalLabel) : Nat := (c.renewals.get? label.name).getD 0

def operation (c : Counters) (o : Operation) : Nat := (c.operations.get? o.name).getD 0

/-- The counts of a table together. -/
def total (t : Table Text Nat) : Nat := t.foldr (fun row n => row.2 + n) 0

theorem getD_get?_countUp (label label' : Text) (t : Table Text Nat) :
    ((countUp label t).get? label').getD 0 =
      (t.get? label').getD 0 + if label = label' then 1 else 0 := by
  rw [countUp, Table.get?_put]
  split
  · rename_i heq
    rw [heq]
    rfl
  · rfl

theorem total_countUp (label : Text) (t : Table Text Nat) :
    total (countUp label t) = total t + 1 := by
  have hput : ∀ (n : Nat) (t : Table Text Nat),
      total (t.put label n) + (t.get? label).getD 0 = total t + n := by
    intro n t
    induction t with
    | nil => simp [total, Table.put]
    | cons row t ih =>
      rcases row with ⟨label', n'⟩
      simp only [total, Table.put, Table.get?] at ih ⊢
      split
      · simp only [List.foldr_cons, Option.getD_some]
        omega
      · simp only [List.foldr_cons]
        omega
  have := hput ((t.get? label).getD 0 + 1) t
  rw [countUp]
  omega

/-- What goes up by one with every notice of a kind is the number of these notices. -/
theorem eq_countP_of_count {f : Counters → Nat} {kind : Notice → Bool} (hnone : f {} = 0)
    (hcount : ∀ c n, f (c.count n) = f c + if kind n then 1 else 0) (journal : List Remark) :
    f (ofJournal journal) = journal.countP (kind ·.notice) := by
  have hfoldl : ∀ c, f (journal.foldl (fun c r => c.count r.notice) c) =
      f c + journal.countP (kind ·.notice) := by
    induction journal with
    | nil => exact fun c => rfl
    | cons remark journal ih =>
      intro c
      rw [List.foldl_cons, ih, List.countP_cons, hcount]
      omega
  rw [ofJournal, hfoldl, hnone, Nat.zero_add]

variable (journal : List Remark)

theorem hits_ofJournal : (ofJournal journal).hits = journal.countP (·.notice.isHit) := by
  refine eq_countP_of_count rfl (fun c n => ?_) journal
  cases n <;> rfl

theorem misses_ofJournal : (ofJournal journal).misses = journal.countP (·.notice.isMiss) := by
  refine eq_countP_of_count rfl (fun c n => ?_) journal
  cases n <;> rfl

theorem renewal_ofJournal (label : RenewalLabel) :
    (ofJournal journal).renewal label = journal.countP (·.notice.isRenewal label) := by
  refine eq_countP_of_count (f := (·.renewal label)) rfl (fun c n => ?_) journal
  cases n with
  | renewal l =>
    have hname : l.name = label.name ↔ l = label := by cases l <;> cases label <;> decide
    simp only [renewal, count, getD_get?_countUp, Notice.isRenewal, hname, decide_eq_true_eq]
  | _ => rfl

theorem operation_ofJournal (o : Operation) :
    (ofJournal journal).operation o = journal.countP (·.notice.isOperation (· = o)) := by
  refine eq_countP_of_count (f := (·.operation o)) rfl (fun c n => ?_) journal
  cases n with
  | operation o' =>
    have hname : o'.name = o.name ↔ o' = o := by cases o' <;> cases o <;> decide
    simp only [operation, count, getD_get?_countUp, Notice.isOperation, hname, decide_eq_true_eq]
  | _ => rfl

theorem total_ofJournal : total (ofJournal journal).operations =
    journal.countP (·.notice.isOperation fun _ => true) := by
  refine eq_countP_of_count (f := (total ·.operations)) rfl (fun c n => ?_) journal
  cases n with
  | operation o => exact total_countUp o.name c.operations
  | _ => rfl

end Counters

/-! ## Values with a window -/

/-- The value is an entry with a window whose bound has not passed. -/
def Held.isWindowed (found : Held) (now : Instant) : Bool :=
  match Entry.decode found.value with
  | .ok entry => entry.sliding.isSome && (entry.isExpired now).toOption = some false
  | .error _ => false

/-- Whether a call is an update that loses against another revision. -/
def StoreCall.isLostUpdate : (call : StoreCall) → Except StoreFault call.Reply → Bool
  | .update .., .error (.conflict ..) => true
  | _, _ => false

/-! ## The turns of a read -/

namespace ReadStage

variable {key : Text} {now : Instant}

/-- The stages of a read that has found a live entry with a window. -/
def isRenewal : ReadStage → Bool
  | renewing .. | refetching _ | deletingAgain .. => true
  | fetching | deleting _ => false

/-- The stages of a read whose write has lost. -/
def isBeaten : ReadStage → Bool
  | refetching _ | deletingAgain .. | renewing _ _ _ true => true
  | fetching | deleting _ | renewing _ _ _ false => false

/-- Whether a fetch is the first one and finds a value with a window. -/
def findsWindow (now : Instant) :
    (stage : ReadStage) → Except StoreFault (stage.call key).Reply → Bool
  | fetching, .ok (some found) => found.isWindowed now
  | _, _ => false

/-- What a turn notes, and what comes next. -/
inductive Notes (key : Text) (now : Instant) : (stage : ReadStage) →
    Except StoreFault (stage.call key).Reply → List Notice →
      ReadStage ⊕ Except CacheFault (Option Bytes) → Prop
  /-- Whatever has failed, it may have been a hit before. -/
  | failed {stage reply notices fault} : (∀ n ∈ notices, n.isVerdict) →
    (stage.call key).isLostUpdate reply = false →
    Notes key now stage reply notices (.inr (.error fault))
  | missing : Notes key now .fetching (.ok none) [.miss] (.inr (.ok none))
  | lapsed {found} : found.isWindowed now = false →
    Notes key now .fetching (.ok (some found)) [.expired] (.inl (.deleting found))
  | windowless {found payload} : found.isWindowed now = false →
    Notes key now .fetching (.ok (some found)) [.hit] (.inr (.ok (some payload)))
  | due {found payload ttl} : found.isWindowed now →
    Notes key now .fetching (.ok (some found)) [.hit] (.inl (.renewing payload found ttl false))
  | skipped {found payload} : found.isWindowed now →
    Notes key now .fetching (.ok (some found)) [.hit, .renewal .skipped]
      (.inr (.ok (some payload)))
  | deleted {found reply line} :
    Notes key now (.deleting found) reply [log line, .miss] (.inr (.ok none))
  | renewed {payload found ttl last n} :
    Notes key now (.renewing payload found ttl last) (.ok n) [.renewal .renewed]
      (.inr (.ok (some payload)))
  | lost {payload found ttl k n line} :
    Notes key now (.renewing payload found ttl false) (.error (.conflict k n))
      [.renewal .conflict, log line] (.inl (.refetching payload))
  | lostAgain {payload found ttl k n line} :
    Notes key now (.renewing payload found ttl true) (.error (.conflict k n))
      [.renewal .conflict, log line, .renewal .conceded] (.inr (.ok (some payload)))
  /-- The entry is gone by the second fetch, or has no window any more. -/
  | gone {payload found?} :
    Notes key now (.refetching payload) (.ok found?) [.renewal .conceded]
      (.inr (.ok (some payload)))
  | lapsedAgain {payload found} :
    Notes key now (.refetching payload) (.ok (some found)) [.expired]
      (.inl (.deletingAgain payload found))
  | dueAgain {payload found ttl} :
    Notes key now (.refetching payload) (.ok (some found)) []
      (.inl (.renewing payload found ttl true))
  | skippedAgain {payload found} :
    Notes key now (.refetching payload) (.ok (some found)) [.renewal .skipped]
      (.inr (.ok (some payload)))
  | deletedAgain {payload found reply line} :
    Notes key now (.deletingAgain payload found) reply [log line, .renewal .conceded]
      (.inr (.ok (some payload)))

theorem notes_fetched (found? : Option Held) : Notes key now .fetching (.ok found?)
    (fetched now found?).notices (fetched now found?).next := by
  cases found? with
  | none => exact .missing
  | some found =>
    unfold fetched
    dsimp only
    split
    · exact .failed (by simp [fail]) rfl
    · rename_i entry hdecode
      split
      · exact .failed (by simp [fail]) rfl
      · rename_i hexpired
        exact .lapsed (by simp [Held.isWindowed, hdecode, hexpired, Except.toOption])
      · rename_i hexpired
        have hwindowed : found.isWindowed now = entry.sliding.isSome := by
          simp [Held.isWindowed, hdecode, hexpired, Except.toOption]
        unfold renew
        split
        · rename_i hnone
          exact .windowless (by rw [hwindowed, hnone]; rfl)
        · rename_i window hwindow
          have hwindowed : found.isWindowed now := by rw [hwindowed, hwindow]; rfl
          split
          · exact .failed (by simp [fail, Notice.isVerdict, Notice.isHit]) rfl
          · split
            · exact .due hwindowed
            · exact .skipped hwindowed

theorem notes_refetched {payload : Bytes} (found? : Option Held) :
    Notes key now (.refetching payload) (.ok found?) (refetched payload now found?).notices
      (refetched payload now found?).next := by
  cases found? with
  | none => exact .gone
  | some found =>
    unfold refetched
    dsimp only
    split
    · exact .failed (by simp [fail]) rfl
    · split
      · exact .failed (by simp [fail]) rfl
      · exact .lapsedAgain
      · unfold renew
        split
        · exact .gone
        · split
          · exact .failed (by simp [fail]) rfl
          · split
            · exact .dueAgain
            · exact .skippedAgain

/-- **What every turn notes.** -/
theorem notes_resume (stage : ReadStage) (reply : Except StoreFault (stage.call key).Reply) :
    Notes key now stage reply (resume key now stage reply).notices
      (resume key now stage reply).next := by
  cases stage with
  | fetching =>
    cases reply with
    | error fault => exact .failed (by simp [resume, fail]) rfl
    | ok found? => exact notes_fetched found?
  | refetching payload =>
    cases reply with
    | error fault => exact .failed (by simp [resume, fail]) rfl
    | ok found? => exact notes_refetched found?
  | deleting found =>
    simp only [resume]
    cases hnotice : deleted? key reply with
    | error fault => exact .failed (by simp [fail]) rfl
    | ok notice =>
      unfold deleted? at hnotice
      split at hnotice <;> cases hnotice <;> exact .deleted
  | deletingAgain payload found =>
    simp only [resume]
    cases hnotice : deleted? key reply with
    | error fault => exact .failed (by simp [fail]) rfl
    | ok notice =>
      unfold deleted? at hnotice
      split at hnotice <;> cases hnotice <;> exact .deletedAgain
  | renewing payload found ttl last =>
    cases reply with
    | ok n => exact .renewed
    | error fault =>
      cases fault with
      | conflict k n =>
        cases last with
        | true => exact .lostAgain
        | false => exact .lost
      | _ => exact .failed (by simp [resume, fail]) rfl

/-! ### The columns of the books -/

namespace Notes

variable {stage : ReadStage} {reply : Except StoreFault (stage.call key).Reply}
  {notices : List Notice} {next : ReadStage ⊕ Except CacheFault (Option Bytes)}

/-- A read that does not fail notes a verdict once, and has done so when its renewal begins. -/
theorem verdicts (h : Notes key now stage reply notices next)
    (hfine : ∀ fault, next ≠ .inr (.error fault)) :
    notices.countP Notice.isVerdict + stage.isRenewal.toNat =
      (next.elim isRenewal fun _ => true).toNat := by
  cases h with
  | failed => exact absurd rfl (hfine _)
  | _ => rfl

/-- A renewal begins where a window is found, and unless it fails it has one outcome. -/
theorem outcomes (h : Notes key now stage reply notices next)
    (hfine : ∀ fault, next ≠ .inr (.error fault)) :
    notices.countP Notice.isOutcome + (next.elim isRenewal fun _ => false).toNat =
      stage.isRenewal.toNat + (findsWindow now stage reply).toNat := by
  cases h with
  | failed => exact absurd rfl (hfine _)
  | lapsed hno | windowless hno => simp [findsWindow, hno, Notice.isOutcome, isRenewal]
  | due hyes | skipped hyes => simp [findsWindow, hyes, Notice.isOutcome, isRenewal]
  | _ => rfl

/-- A conflict is noted for every update that loses. -/
theorem conflicts (h : Notes key now stage reply notices next) :
    notices.countP (Notice.isRenewal .conflict) = ((stage.call key).isLostUpdate reply).toNat := by
  cases h with
  | failed hverdicts hreply =>
    rw [hreply]
    exact Notice.countP_eq_zero_of_isVerdict hverdicts fun n => Notice.isRenewal_of_isVerdict
  | _ => rfl

/-- Nothing is conceded before an update has lost. -/
theorem concessions (h : Notes key now stage reply notices next) :
    notices.countP (Notice.isRenewal .conceded) + (next.elim isBeaten fun _ => false).toNat ≤
      notices.countP (Notice.isRenewal .conflict) + stage.isBeaten.toNat := by
  cases h with
  | failed hverdicts =>
    rw [Notice.countP_eq_zero_of_isVerdict hverdicts fun n => Notice.isRenewal_of_isVerdict]
    exact Nat.zero_le _
  | lostAgain => exact Nat.le_succ 1
  | _ => first | exact Nat.le_refl _ | exact Nat.zero_le _

/-- A renewal is noted for every update that is let through. -/
theorem renewals (h : Notes key now stage reply notices next)
    (hfine : ∀ fault, next ≠ .inr (.error fault)) :
    notices.countP (Notice.isRenewal .renewed) =
      ((stage.call key).value?.isSome && reply.isOk).toNat := by
  cases h with
  | failed => exact absurd rfl (hfine _)
  | _ => rfl

/-- That an operation is over is not noted by its turns. -/
theorem operations (h : Notes key now stage reply notices next) (kind : Operation → Bool) :
    notices.countP (Notice.isOperation kind) = 0 := by
  cases h with
  | failed hverdicts =>
    exact Notice.countP_eq_zero_of_isVerdict hverdicts fun n => Notice.isOperation_of_isVerdict
  | _ => rfl

end Notes

end ReadStage

/-! ## The turns of any work -/

namespace Work

variable {key : Text} {now : Instant}

def isRead : Work → Bool
  | read _ => true
  | write _ => false

def isRenewal : Work → Bool
  | read stage => stage.isRenewal
  | write _ => false

def isBeaten : Work → Bool
  | read stage => stage.isBeaten
  | write _ => false

def findsWindow (now : Instant) :
    (work : Work) → Except StoreFault (work.call key).Reply → Bool
  | read stage, reply => stage.findsWindow now reply
  | write _, _ => false

/-- What a turn puts in the columns of the books; in some of them only if it does not fail. -/
structure Posts (now : Instant) (work : Work) (reply : Except StoreFault (work.call key).Reply)
    (turn : WorkTurn) : Prop where
  operations (kind : Operation → Bool) : turn.notices.countP (Notice.isOperation kind) = 0
  conflicts : turn.notices.countP (Notice.isRenewal .conflict) =
    ((work.call key).isLostUpdate reply).toNat
  concessions : turn.notices.countP (Notice.isRenewal .conceded) +
      (turn.next.elim isBeaten fun _ => false).toNat ≤
    turn.notices.countP (Notice.isRenewal .conflict) + work.isBeaten.toNat
  verdicts : (∀ fault, turn.next ≠ .inr (.error fault)) →
    turn.notices.countP Notice.isVerdict + (work.isRead && work.isRenewal).toNat =
      (work.isRead && turn.next.elim isRenewal fun _ => true).toNat
  outcomes : (∀ fault, turn.next ≠ .inr (.error fault)) →
    turn.notices.countP Notice.isOutcome + (turn.next.elim isRenewal fun _ => false).toNat =
      work.isRenewal.toNat + (work.findsWindow now reply).toNat
  renewals : (∀ fault, turn.next ≠ .inr (.error fault)) →
    turn.notices.countP (Notice.isRenewal .renewed) =
      (work.isRead && (work.call key).value?.isSome && reply.isOk).toNat

theorem posts_read (stage : ReadStage) (reply : Except StoreFault ((read stage).call key).Reply) :
    (read stage).Posts now reply ((read stage).resume key now reply) := by
  have h : ReadStage.Notes key now stage reply (stage.resume key now reply).notices
      (stage.resume key now reply).next := ReadStage.notes_resume stage reply
  have hfine : (∀ fault, ((read stage).resume key now reply).next ≠ .inr (.error fault)) →
      ∀ fault, (stage.resume key now reply).next ≠ .inr (.error fault) := by
    intro hfine fault hnext
    exact hfine fault (by rw [resume, hnext]; rfl)
  have helim : ∀ (f : Work → Bool) (b : Bool),
      (((read stage).resume key now reply).next.elim f fun _ => b) =
        (stage.resume key now reply).next.elim (fun stage => f (read stage)) fun _ => b := by
    intro f b
    rw [resume]
    cases (stage.resume key now reply).next <;> rfl
  exact {
    operations := h.operations
    conflicts := h.conflicts
    concessions := by
      rw [helim]
      exact h.concessions
    verdicts := by
      intro hf
      rw [helim]
      exact h.verdicts (hfine hf)
    outcomes := by
      intro hf
      rw [helim]
      exact h.outcomes (hfine hf)
    renewals := fun hf => h.renewals (hfine hf) }

theorem posts_write {call : StoreCall} (reply : Except StoreFault call.Reply)
    (h : call.expected? = none) :
    @Posts key now (write call) reply ((write call).resume key now reply) := by
  have hlost : call.isLostUpdate reply = false := by
    cases call with
    | update => cases h
    | _ => cases reply <;> rfl
  cases reply with
  | ok n => exact {
      operations := fun kind => rfl
      conflicts := (congrArg Bool.toNat hlost).symm
      concessions := Nat.le_refl 0
      verdicts := fun hf => rfl
      outcomes := fun hf => rfl
      renewals := fun hf => rfl }
  | error fault => exact {
      operations := fun kind => rfl
      conflicts := (congrArg Bool.toNat hlost).symm
      concessions := Nat.le_refl 0
      verdicts := fun hf => absurd rfl (hf _)
      outcomes := fun hf => absurd rfl (hf _)
      renewals := fun hf => absurd rfl (hf _) }

/-- **What every turn puts in the books.** What is not a read must not name a revision. -/
theorem posts_resume (work : Work) (reply : Except StoreFault (work.call key).Reply)
    (hwrite : ∀ call, work = .write call → call.expected? = none) :
    work.Posts now reply (work.resume key now reply) := by
  cases work with
  | read stage => exact posts_read stage reply
  | write call => exact posts_write reply (hwrite call rfl)

end Work

end SlidingCache
