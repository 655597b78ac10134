import SlidingCache.Proofs.Sequence.Calls
import SlidingCache.Proofs.Shared.Bounds

/-!
# Reads are counted as what they bring

Of the findings of a read one is its verdict, a hit or a miss. `ReadStage.Owes` says which one a read
at a stage still has to note if it is to end with a result. Every turn notes it or leaves it to the
next one (`ReadStage.settles_resume`), so it is noted by the end of the read (`ReadStage.owes_run`).

A call without a break adds the findings of its work to the journal and no others
(`LiveCache.findings_call`). So a call that brings its caller a payload is counted as one hit, and a
call that brings none as one miss (`LiveCache.brings_of_run`).
-/

namespace SlidingCache

namespace Notice

def isMiss : Notice → Bool
  | miss => true
  | _ => false

def isVerdict (n : Notice) : Bool := n.isHit || n.isMiss

theorem isFinding_of_isVerdict {n : Notice} (h : n.isVerdict) : n.isFinding := by
  cases n with
  | hit | miss | expired | renewal => rfl
  | operation | say => cases h

/-- The verdict on a read by what it brings. -/
def verdict (payload? : Option Bytes) : Notice := if payload?.isSome then hit else miss

end Notice

/-! ## Verdicts -/

namespace ReadStage

/-- The verdicts that a read at a stage still owes if it is going to bring a payload, or none. -/
def Owes : ReadStage → Option Bytes → List Notice → Prop
  | fetching, payload?, verdicts => verdicts = [.verdict payload?]
  | deleting _, payload?, verdicts => payload? = none ∧ verdicts = [.miss]
  | renewing .., payload?, verdicts | refetching _, payload?, verdicts
  | deletingAgain .., payload?, verdicts => payload?.isSome ∧ verdicts = []

/-- What a turn notes settles what is owed at a stage, at once or with the turns to come. -/
structure Settles (stage : ReadStage) (turn : ReadTurn) : Prop where
  ends {payload? : Option Bytes} : turn.next = .inr (.ok payload?) →
    stage.Owes payload? (turn.notices.filter Notice.isVerdict)
  goesOn {next : ReadStage} {payload? : Option Bytes} {verdicts : List Notice} :
    turn.next = .inl next → next.Owes payload? verdicts →
      stage.Owes payload? (turn.notices.filter Notice.isVerdict ++ verdicts)

section
variable {stage : ReadStage} {key : Text} {now : Instant} {notices : List Notice}
  {payload : Bytes} {found : Held} {entry : Entry} {last : Bool}

theorem settles_fail {fault : CacheFault} : stage.Settles (fail notices fault) where
  ends h := by cases h
  goesOn h := by cases h

theorem settles_inl {next : ReadStage} (h : ∀ payload? verdicts, next.Owes payload? verdicts →
      stage.Owes payload? (notices.filter Notice.isVerdict ++ verdicts)) :
    stage.Settles ⟨notices, .inl next⟩ where
  ends h := by cases h
  goesOn hnext howes := by
    cases hnext
    exact h _ _ howes

theorem settles_miss (h : stage.Owes none (notices.filter Notice.isVerdict ++ [.miss])) :
    stage.Settles (miss notices) where
  goesOn h := by cases h
  ends hnext := by
    cases hnext
    rw [miss, List.filter_append]
    exact h

theorem settles_conclude {label : Option RenewalLabel}
    (h : stage.Owes (some payload) (notices.filter Notice.isVerdict)) :
    stage.Settles (conclude notices label payload) where
  goesOn h := by cases h
  ends hnext := by
    cases hnext
    have hlabel : (label.map Notice.renewal).toList.filter Notice.isVerdict = [] := by
      cases label <;> rfl
    rw [conclude, List.filter_append, hlabel, List.append_nil]
    exact h

theorem settles_renew
    (h : ∀ payload?, payload?.isSome → stage.Owes payload? (notices.filter Notice.isVerdict)) :
    stage.Settles (renew notices payload found entry last now) := by
  have hconclude : ∀ label, stage.Settles (conclude notices label payload) :=
    fun label => settles_conclude (h (some payload) rfl)
  unfold renew
  split
  · exact hconclude _
  · split
    · exact settles_fail
    · split
      · apply settles_inl
        rintro payload? verdicts ⟨hsome, rfl⟩
        rw [List.append_nil]
        exact h payload? hsome
      · exact hconclude _

/-- **Every turn settles what is owed.** -/
theorem settles_resume (reply : Except StoreFault (stage.call key).Reply) :
    stage.Settles (stage.resume key now reply) := by
  cases stage with
  | fetching =>
    cases reply with
    | error fault => exact settles_fail
    | ok found? =>
      cases found? with
      | none => exact settles_miss rfl
      | some found =>
        simp only [resume, fetched]
        repeat' split
        · exact settles_fail
        · exact settles_fail
        · apply settles_inl
          rintro payload? verdicts ⟨rfl, rfl⟩
          rfl
        · refine settles_renew fun payload? hsome => ?_
          simp only [Owes, Notice.verdict, hsome]
          rfl
  | deleting found =>
    simp only [resume]
    cases hnotice : deleted? key reply with
    | error fault => exact settles_fail
    | ok notice =>
      apply settles_miss
      unfold deleted? at hnotice
      split at hnotice <;> cases hnotice <;> exact ⟨rfl, rfl⟩
  | deletingAgain payload found =>
    simp only [resume]
    cases hnotice : deleted? key reply with
    | error fault => exact settles_fail
    | ok notice =>
      apply settles_conclude
      unfold deleted? at hnotice
      split at hnotice <;> cases hnotice <;> exact ⟨rfl, rfl⟩
  | refetching payload =>
    cases reply with
    | error fault => exact settles_fail
    | ok found? =>
      cases found? with
      | none => exact settles_conclude ⟨rfl, rfl⟩
      | some found =>
        simp only [resume, refetched]
        repeat' split
        · exact settles_fail
        · exact settles_fail
        · exact settles_inl fun payload? verdicts howes => howes
        · exact settles_renew fun payload? hsome => ⟨hsome, rfl⟩
  | renewing payload found ttl last =>
    cases reply with
    | ok n => exact settles_conclude ⟨rfl, rfl⟩
    | error fault =>
      cases fault with
      | conflict =>
        cases last with
        | true => exact settles_conclude ⟨rfl, rfl⟩
        | false =>
          exact settles_inl fun payload? verdicts howes => howes
      | _ => exact settles_fail

end

/-- What is owed at a stage is noted by the time the read is over. -/
theorem owes_run {σ : Type} [Store σ] {key : Text} {now : Instant} {stage : ReadStage} {store : σ}
    {payload? : Option Bytes} (h : (stage.run key now store).2.1 = .ok payload?) :
    stage.Owes payload? ((stage.run key now store).1.filter Notice.isVerdict) := by
  have hturn : stage.Settles (stage.resume key now (Store.perform now (stage.call key) store).1) :=
    settles_resume _
  cases hnext : (stage.resume key now (Store.perform now (stage.call key) store).1).next with
  | inr result =>
    rw [run_eq_of_inr hnext] at h ⊢
    exact hturn.ends (hnext.trans (congrArg Sum.inr h))
  | inl next =>
    rw [run_eq_of_inl hnext] at h ⊢
    rw [List.filter_append]
    exact hturn.goesOn hnext (owes_run h)
termination_by stage.rank
decreasing_by exact rank_resume hnext

end ReadStage

/-! ## The findings of a call -/

namespace Work

variable {σ : Type} [Store σ] {key : Text} {now : Instant} {work next : Work} {store : σ}

/-- What is noted in the course of work while nobody else uses the store. -/
def notices (key : Text) (now : Instant) : Work → σ → List Notice
  | read stage, store => (stage.run key now store).1
  | write _, _ => []

theorem notices_of_inr {result : Except CacheFault (Option Bytes)}
    (h : (work.resume key now (Store.perform now (work.call key) store).1).next = .inr result) :
    work.notices key now store =
      (work.resume key now (Store.perform now (work.call key) store).1).notices := by
  cases work with
  | read stage =>
    simp only [resume] at h
    cases hnext : (stage.resume key now
        (Store.perform now ((read stage).call key) store).1).next with
    | inl stage' =>
      rw [hnext] at h
      cases h
    | inr result' => exact congrArg Prod.fst (ReadStage.run_eq_of_inr hnext)
  | write call =>
    show [] = ((write call).resume key now (Store.perform now call store).1).notices
    cases (Store.perform now call store).1 <;> rfl

theorem notices_of_inl
    (h : (work.resume key now (Store.perform now (work.call key) store).1).next = .inl next) :
    work.notices key now store =
      (work.resume key now (Store.perform now (work.call key) store).1).notices ++
        next.notices key now (Store.perform now (work.call key) store).2 := by
  obtain ⟨stage, stage', rfl, rfl⟩ := Request.exists_stage_of_resume h
  exact congrArg Prod.fst (ReadStage.run_eq_of_inl (Request.resume_read h))

end Work

namespace LiveCache

variable {σ : Type} {s : LiveCache σ} {c : Nat} {command : Command} {r : Request}

/-- How often a miss was noted under a key. -/
def misses (s : LiveCache σ) (key : Text) : Nat :=
  s.journal.countP fun remark => remark.context.cacheKey = key ∧ remark.notice.isMiss

/-- How often the verdicts of new findings are of a kind. -/
theorem countP_of_findings {s' : LiveCache σ} {context : LogContext Text} {notices : List Notice}
    {p : Notice → Bool} (hp : ∀ n, p n → n.isVerdict)
    (h : s'.findings = s.findings ++ found context notices) :
    s'.journal.countP (fun remark => remark.context.cacheKey = context.cacheKey ∧ p remark.notice) =
      s.journal.countP (fun remark => remark.context.cacheKey = context.cacheKey ∧ p remark.notice) +
        (notices.filter Notice.isVerdict).countP p := by
  have hfinding : ∀ remark : Remark,
      decide (remark.context.cacheKey = context.cacheKey ∧ p remark.notice) →
        remark.notice.isFinding := fun remark hremark =>
    Notice.isFinding_of_isVerdict (hp _ (of_decide_eq_true hremark).2)
  have hnew : (found context notices).countP (fun remark =>
      remark.context.cacheKey = context.cacheKey ∧ p remark.notice) =
        (notices.filter Notice.isVerdict).countP p := by
    rw [found, List.countP_map, List.countP_filter, List.countP_filter]
    refine List.countP_congr fun n _ => ?_
    simp only [Function.comp_apply, true_and, decide_eq_true_eq, Bool.and_eq_true]
    exact and_congr_right fun hn => iff_of_true (Notice.isFinding_of_isVerdict (hp n hn)) (hp n hn)
  rw [countP_journal hfinding, countP_journal hfinding, h, List.countP_append, hnew]

variable [Store σ]

theorem findings_perform {handle : Handle}
    (h : s.calls[c]? = some ⟨command, true, .working handle r, none⟩) :
    (s.perform c).findings = s.findings ++
      found r.context
        (r.work.resume r.key s.now (Store.perform s.now r.call s.store).1).notices := by
  rw [perform, h]
  exact findings_deliver

/-- The turns of a call that has the store bring the findings of its work. -/
theorem findings_run_perform {n : Nat} {handle : Handle} (hrest : s.AtRest)
    (h : s.calls[c]? = some ⟨command, true, .working handle r, none⟩) (hpos : 0 < n)
    (hrank : r.work.rank ≤ n) :
    (s.run (List.replicate n (.perform c))).findings =
      s.findings ++ found r.context (r.work.notices r.key s.now s.store) := by
  induction n generalizing s r with
  | zero => exact absurd hpos (Nat.lt_irrefl 0)
  | succ n ih =>
    have hcalls := calls_perform_of_working h
    have hsettled := settled_perform h hrest
    have hfirst := findings_perform h
    show ((s.perform c).run (List.replicate n (.perform c))).findings = _
    unfold delivered at hcalls
    cases hnext : (r.work.resume r.key s.now (Store.perform s.now r.call s.store).1).next with
    | inr result =>
      rw [hnext] at hcalls
      rw [run_perform_of_over n hcalls, hfirst, Work.notices_of_inr hnext]
      rfl
    | inl work =>
      rw [hnext] at hcalls
      have hless := Work.rank_resume hnext
      obtain ⟨stage, stage', -, rfl⟩ := Request.exists_stage_of_resume hnext
      have hone : 1 ≤ (Work.read stage').rank := Nat.le_add_left 1 _
      have hend := ih hsettled.atRest hcalls (by omega) (by simp only; omega)
      rw [hsettled.now, hsettled.store] at hend
      rw [hend, hfirst, Work.notices_of_inl hnext, found_append, List.append_assoc]
      rfl

/-- **The findings of a call are those of its work.** -/
theorem findings_call (hrest : s.AtRest) (h : command.request s.cache s.now = .ok r) :
    (s.call command true).2.findings =
      s.findings ++ found r.context (r.work.notices r.key s.now s.store) := by
  obtain ⟨handle, hcalls, hsettled⟩ := entered_of_ok hrest h
  have hentry : (s.run (s.entryEvents command)).findings = s.findings :=
    findings_run fun e he => by
      simp only [entryEvents, List.mem_cons, List.not_mem_nil, or_false] at he
      rcases he with rfl | rfl | rfl | rfl | rfl | rfl | rfl <;> rfl
  have hwork := findings_run_perform hsettled.atRest hcalls (by decide : 0 < 5) Work.rank_le
  rw [hsettled.now, hsettled.store, hentry] at hwork
  rw [call, run_callEvents]
  dsimp only
  exact hwork

/-! ### Reads -/

/-- A call that reads brings its caller what the store has for the key: a payload, which is counted
as a hit, or none, which is counted as a miss. -/
structure Brings (s : LiveCache σ) (key : Text) (command : Command) (payload? : Option Bytes) :
    Prop where
  answer : (s.call command true).1 = some (command.answer (.ok payload?))
  hits : (s.call command true).2.hits key = s.hits key + if payload?.isSome then 1 else 0
  misses : (s.call command true).2.misses key = s.misses key + if payload?.isSome then 0 else 1

/-- **A read is counted as what it brings.** -/
theorem brings_of_run {key : Text} {payload? : Option Bytes} (hrest : s.AtRest)
    (hread : command.isRead) (hkey : s.cache.storeKey command.key = .ok key)
    (h : (ReadStage.fetching.run key s.now s.store).2.1 = .ok payload?) :
    s.Brings key command payload? := by
  have hrequest := Command.request_of_isRead s.now hread hkey
  have hanswer := (call_of_ok hrest hrequest Work.rank_le).1
  have hfindings := findings_call hrest hrequest
  have hverdict : ((Work.read .fetching).notices key s.now s.store).filter Notice.isVerdict =
      [.verdict payload?] := ReadStage.owes_run h
  refine ⟨hanswer.trans ?_, ?_, ?_⟩
  · exact congrArg (fun result => some (command.answer result)) h
  · refine (countP_of_findings (fun n hn => by simp [Notice.isVerdict, hn]) hfindings).trans ?_
    rw [hverdict]
    cases payload? <;> rfl
  · refine (countP_of_findings (fun n hn => by simp [Notice.isVerdict, hn]) hfindings).trans ?_
    rw [hverdict]
    cases payload? <;> rfl

end LiveCache

end SlidingCache
