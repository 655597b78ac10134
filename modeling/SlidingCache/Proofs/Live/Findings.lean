import SlidingCache.Proofs.Live.Calls

/-!
# What is found

The findings in a journal are what is counted of reads and renewals: hits, misses, expired entries
and how renewals went. Only a call that gets the answer to a store call notes any
(`LiveCache.findings_step`), and it notes those of its turn (`LiveCache.findings_deliver`).
-/

namespace SlidingCache

/-- Whether a notice says how a read or a renewal went. -/
def Notice.isFinding : Notice → Bool
  | hit | miss | expired | renewal _ => true
  | operation _ | say .. => false

/-- Whether an event hands a call the answer to a store call. -/
def Event.isReply : Event → Bool
  | .perform _ | .refuse .. => true
  | _ => false

namespace LiveCache

variable {σ : Type} {s : LiveCache σ} {c : Nat} {command : Command} {r : Request}

/-- What was counted of reads and renewals. -/
def findings (s : LiveCache σ) : List Remark := s.journal.filter (·.notice.isFinding)

theorem countP_journal {q : Remark → Bool} (hq : ∀ remark, q remark → remark.notice.isFinding) :
    s.journal.countP q = s.findings.countP q := by
  rw [findings, List.countP_filter]
  refine List.countP_congr fun remark _ => ?_
  rw [Bool.and_eq_true]
  exact ⟨fun h => ⟨h, hq remark h⟩, And.left⟩

/-- Notices made into findings of an operation. -/
def found (context : LogContext Text) (notices : List Notice) : List Remark :=
  (notices.filter Notice.isFinding).map (⟨context, ·⟩)

theorem found_append {context : LogContext Text} {notices notices' : List Notice} :
    found context (notices ++ notices') = found context notices ++ found context notices' := by
  rw [found, List.filter_append, List.map_append]
  rfl

theorem findings_say {context : LogContext Text} {notices : List Notice} :
    (s.say context notices).findings = s.findings ++ found context notices := by
  rw [findings, say, List.filter_append, List.filter_map]
  rfl

theorem found_lines {context : LogContext Text} {lines : List LogLine} :
    found context (lines.map (.say · none)) = [] := by
  simp [found, Notice.isFinding]

theorem findings_finish {result : Except CacheFault (Option Bytes)} :
    (s.finish c command r result).findings = s.findings := by
  have hclosing : found r.context (closingNotices r.operation result) = [] := by
    unfold closingNotices
    split <;> rfl
  rw [finish, ← List.append_nil s.findings, ← hclosing]
  exact findings_say

theorem findings_deliver {handle : Handle} {reply : Except StoreFault r.call.Reply} :
    (s.deliver c command handle r reply).findings = s.findings ++
      found r.context (r.work.resume r.key s.now reply).notices := by
  unfold deliver
  dsimp only
  split
  · exact findings_say
  · exact findings_finish.trans findings_say

variable [Store σ]

/-- Only the answer to a store call brings findings. -/
theorem findings_step {e : Event} (h : e.isReply = false) : (s.step e).findings = s.findings := by
  cases e with
  | perform | refuse => cases h
  | endAttempt a outcome =>
    simp only [step, endAttempt]
    split
    · cases outcome with
      | opened handle =>
        refine (findings_say (s := { s with handle := some handle })).trans ?_
        rw [found_lines, List.append_nil]
        rfl
      | failed fault => exact findings_say.trans (List.append_nil _)
      | cancelled => rfl
    · rfl
  | ask c =>
    simp only [step, ask, attemptFor]
    split
    · exact findings_finish
    · repeat' split
      all_goals rfl
    · rfl
  | wake c =>
    simp only [step, wake, leave]
    repeat' split
    all_goals first | rfl | exact findings_finish.trans rfl
  | begin c =>
    simp only [step, begin]
    repeat' split
    all_goals first | rfl | exact findings_finish
  | close =>
    simp only [step, close]
    split <;> rfl
  | _ =>
    simp only [step, start, interrupt, beginAttempt, release]
    repeat' split
    all_goals rfl

theorem findings_run {events : List Event} (h : ∀ e ∈ events, e.isReply = false) :
    (s.run events).findings = s.findings := by
  induction events generalizing s with
  | nil => rfl
  | cons e events ih =>
    exact (ih fun e he => h e (List.mem_cons_of_mem _ he)).trans
      (findings_step (h e List.mem_cons_self))

end LiveCache

end SlidingCache
