import SlidingCache.Proofs.Entry
import SlidingCache.Proofs.Live.Findings
import SlidingCache.Proofs.Shared.Fleet

/-!
# The absolute bound is final

Once the bound of the value that was put last under a key has passed, every read of the key misses
until there is another put (`Fleet.missed_run`). Renewals write back the value with the bound in it
(`Fleet.kept_run`), and a bound is read as it was written (`Entry.decode_encode`); so what a read
finds under the key, whenever it looks, has lapsed (`OnlyLapsed`). The read then goes from its first
fetch to a delete and ends without a payload (`ReadStage.missing_performed`).
-/

namespace SlidingCache

open LawfulStore

/-- The stored value is an entry with this absolute bound. -/
def EndsAt (value : Bytes) (us : Int) : Prop :=
  ∃ entry bound, Entry.decode value = .ok entry ∧ entry.absolute = some bound ∧ bound.isAware ∧
    bound.utcUs = us

/-- What a set writes ends at the bound that was planned. -/
theorem Command.endsAt_of_writeCall {key : Text} {value data : Bytes} {options : ExpirationOptions}
    {start bound : Instant} {plan : ExpirationPlan} {ttl : Option Duration}
    (hplan : options.plan start = .ok plan) (hbound : plan.absolute = some bound)
    (h : writeCall key value options start = .ok (.put key data ttl)) :
    EndsAt data bound.utcUs := by
  obtain ⟨plan', hplan', h⟩ := Chain.bind_eq_ok.1 h
  obtain rfl : plan = plan' := Except.ok.inj (hplan.symm.trans (Chain.mapError_eq_ok.1 hplan'))
  obtain ⟨data', hdata, h⟩ := Chain.bind_eq_ok.1 h
  obtain rfl : data' = data := by
    have hstoring : storing key data' plan.ttl = .put key data ttl := Except.ok.inj h
    rcases storing_cases key data' plan.ttl with ⟨-, hput⟩ | hdelete
    · cases hput.symm.trans hstoring
      rfl
    · cases hdelete.symm.trans hstoring
  obtain ⟨absolute, habsolute, hdecode⟩ := Entry.decode_encode (Chain.mapError_eq_ok.1 hdata)
  simp only [hbound] at habsolute
  obtain ⟨i, hi, rfl⟩ := Chain.map_eq_ok.1 habsolute
  exact ⟨_, i, hdecode, rfl, Instant.isAware_inUtc hi, (Instant.inUtc_spec hi).2⟩

/-! ## A read of what has lapsed -/

section
variable {σ : Type} [Store σ] [LawfulStore σ]

/-- A key under which there is at most an entry whose bound has passed. -/
structure OnlyLapsed (s : σ) (now : Instant) (key : Text) : Prop where
  valid : Valid s
  legal : StoreKey.IsLegal key
  aware : now.isAware
  lapsed : ∀ {x}, slot? s now key = some x → ∃ us, EndsAt x.value us ∧ us < now.utcUs

/-- The end of a read without a payload: a miss, or a failure that came from outside. -/
inductive Missed (refused : StoreFault → Prop) : Except CacheFault (Option Bytes) → Prop
  | miss : Missed refused (.ok none)
  | cancelled : Missed refused (.error .cancelled)
  | timedOut : Missed refused (.error .timedOut)
  | unopened {fault} : Missed refused (.error (.unopened fault))
  /-- The store call was made to fail. -/
  | refused {fault} : refused fault → Missed refused (.error (.store fault))

def Notice.isHit : Notice → Bool
  | .hit => true
  | _ => false

namespace ReadStage

variable {s : σ} {now : Instant} {key : Text} {stage : ReadStage} {refused : StoreFault → Prop}

/-- The stages of a read that has found no live entry. -/
def isMissing : ReadStage → Bool
  | fetching | deleting _ => true
  | _ => false

/-- A turn that brings a read nearer to a miss. -/
structure LeadsToMiss (refused : StoreFault → Prop) (turn : ReadTurn) : Prop where
  stays : ∀ {next}, turn.next = .inl next → next.isMissing
  ends : ∀ {result}, turn.next = .inr result → Missed refused result

theorem leadsToMiss_miss {notices : List Notice} : LeadsToMiss refused (miss notices) where
  stays h := by cases h
  ends h := by cases h; exact .miss

theorem leadsToMiss_fail {notices : List Notice} {fault : StoreFault} (h : refused fault) :
    LeadsToMiss refused (fail notices (.store fault)) where
  stays h := by cases h
  ends h' := by cases h'; exact .refused h

/-- What is found has lapsed, so it is deleted. -/
theorem fetched_of_endsAt (found : Held) {us : Int} (h : EndsAt found.value us)
    (hpassed : us < now.utcUs) (haware : now.isAware) :
    fetched now (some found) = ⟨[.expired], .inl (.deleting found)⟩ := by
  obtain ⟨entry, bound, hdecode, hbound, hboundAware, rfl⟩ := h
  simp only [fetched, hdecode, Entry.isExpired_eq hbound (haware.trans hboundAware.symm),
    decide_eq_true hpassed]

/-- The reply to a delete of a revision under a legal key is no failure but a conflict. -/
theorem deleted?_performed (found : Held) (now : Instant) (hs : Valid s)
    (hlegal : StoreKey.IsLegal key) : ∃ notice,
      deleted? key (Store.perform now (.delete key (some found.revision)) s).1 = .ok notice := by
  have hp := performed now (.delete key (some found.revision)) hs
  generalize (Store.perform now (.delete key (some found.revision)) s).1 = reply,
    slot? (Store.perform now (.delete key (some found.revision)) s).2 now = view at hp ⊢
  generalize lastRevision (Store.perform now (.delete key (some found.revision)) s).2 = last at hp
  cases hp with
  | deleted => exact ⟨_, rfl⟩
  | refused hrefusal =>
    cases hrefusal with
    | conflict => exact ⟨_, rfl⟩
    | invalidKey he => rw [StoreCall.key, StoreKey.check_eq_ok_iff.2 hlegal] at he; cases he
    | ttlNotPositive he => cases he
    | time he => cases he

/-- A read that comes to the store while all under its key has lapsed. -/
theorem missing_performed (h : OnlyLapsed s now key) (hstage : stage.isMissing) :
    LeadsToMiss refused (resume key now stage (Store.perform now (stage.call key) s).1) := by
  cases stage with
  | fetching =>
    simp only [ReadStage.call, perform_get h.valid h.legal]
    cases hslot : slot? s now key with
    | none => exact leadsToMiss_miss
    | some x =>
      obtain ⟨us, hends, hpassed⟩ := h.lapsed hslot
      have hturn := fetched_of_endsAt x.held hends hpassed h.aware
      simp only [resume, Option.map_some, hturn]
      exact ⟨fun hnext => by cases hnext; rfl, fun hnext => by cases hnext⟩
  | deleting found =>
    obtain ⟨notice, hnotice⟩ := deleted?_performed found now h.valid h.legal
    simp only [ReadStage.call, resume, hnotice]
    exact leadsToMiss_miss
  | _ => cases hstage

/-- A read whose call is made to fail. -/
theorem missing_refused {fault : StoreFault} (hstage : stage.isMissing) (hfault : refused fault) :
    LeadsToMiss refused (resume key now stage (.error fault)) := by
  cases stage with
  | fetching => exact leadsToMiss_fail hfault
  | deleting found =>
    simp only [resume]
    cases fault with
    | conflict => exact leadsToMiss_miss
    | _ => exact leadsToMiss_fail hfault
  | _ => cases hstage

/-- Only the first fetch notes a hit. -/
theorem any_isHit_resume {reply : Except StoreFault (stage.call key).Reply}
    (h : stage ≠ .fetching) : (resume key now stage reply).notices.any Notice.isHit = false := by
  have renewed : ∀ {payload found entry last}, (renew [] payload found entry last now).notices.any
      Notice.isHit = false := by
    intro payload found entry last
    unfold renew
    repeat' split
    all_goals rfl
  cases stage with
  | fetching => exact absurd rfl h
  | deleting found | deletingAgain payload found =>
    simp only [resume]
    cases hnotice : deleted? key reply with
    | error fault => rfl
    | ok notice =>
      unfold deleted? at hnotice
      split at hnotice <;> cases hnotice <;> rfl
  | refetching payload =>
    cases reply with
    | error fault => rfl
    | ok found =>
      simp only [resume, refetched]
      repeat' split
      all_goals first | rfl | exact renewed
  | renewing payload found ttl last =>
    cases reply with
    | ok n => rfl
    | error fault => cases fault <;> cases last <;> rfl

/-- No hit is noted while all under the key has lapsed. -/
theorem any_isHit_performed (h : OnlyLapsed s now key) :
    (resume key now stage (Store.perform now (stage.call key) s).1).notices.any Notice.isHit =
      false := by
  by_cases hstage : stage = .fetching
  · subst hstage
    simp only [ReadStage.call, perform_get h.valid h.legal]
    cases hslot : slot? s now key with
    | none => rfl
    | some x =>
      obtain ⟨us, hends, hpassed⟩ := h.lapsed hslot
      simp only [resume, Option.map_some, fetched_of_endsAt x.held hends hpassed h.aware]
      rfl
  · exact any_isHit_resume hstage

end ReadStage

end

/-! ## Calls of one cache -/

namespace Command

/-- Whether a command reads, leniently or not. -/
def isRead : Command → Bool
  | get _ | tryGet .. | refresh _ => true
  | set .. | remove _ => false

/-- A read whose key is accepted begins with a fetch. -/
theorem request_of_isRead {command : Command} {cache : Cache} {key : Text} (start : Instant)
    (h : command.isRead) (hkey : cache.storeKey command.key = .ok key) :
    command.request cache start = .ok ⟨command.operation, key, .read .fetching⟩ := by
  rw [request, hkey]
  cases command with
  | get | tryGet | refresh => rfl
  | set | remove => cases h

end Command

/-- Where a read of a key may be that has found no live entry. -/
def CallStage.IsMissing (refused : StoreFault → Prop) (key : Text) (command : Command) :
    CallStage → Prop
  | .created | .dropped => True
  | .prepared r | .joined _ r | .working _ r =>
    r.key = key ∧ ∃ stage : ReadStage, r.work = .read stage ∧ stage.isMissing
  | .over answer => ∃ result, Missed refused result ∧ answer = command.answer result

namespace LiveCache

variable {σ : Type} {s : LiveCache σ} {e : Event} {key : Text} {c : Nat}
  {refused : StoreFault → Prop}

theorem missed_interruption (i : Interruption) : Missed refused (.error i.fault) := by
  cases i with
  | cancel => exact .cancelled
  | timeout => exact .timedOut

theorem isMissing_delivered {command : Command} {handle : Handle} {operation : Operation}
    {stage : ReadStage} {now : Instant} {reply : Except StoreFault (stage.call key).Reply}
    (h : ReadStage.LeadsToMiss refused (stage.resume key now reply)) :
    (delivered now command handle ⟨operation, key, .read stage⟩ reply).IsMissing refused key
      command := by
  unfold delivered
  simp only [Work.resume]
  cases hnext : (stage.resume key now reply).next with
  | inl next =>
    simp only [Sum.map_inl]
    exact ⟨rfl, next, rfl, h.stays hnext⟩
  | inr result =>
    simp only [Sum.map_inr]
    exact ⟨result, h.ends hnext, rfl⟩

/-! ### Hits -/

/-- How often a hit was noted under a key. -/
def hits (s : LiveCache σ) (key : Text) : Nat :=
  s.journal.countP fun remark => remark.context.cacheKey = key ∧ remark.notice.isHit

/-- Hits are findings. -/
theorem hits_of_findings {s' : LiveCache σ} (h : s'.findings = s.findings) :
    s'.hits key = s.hits key := by
  have hfinding : ∀ remark : Remark,
      decide (remark.context.cacheKey = key ∧ remark.notice.isHit) → remark.notice.isFinding := by
    rintro ⟨context, notice⟩ hremark
    obtain ⟨-, hhit⟩ := of_decide_eq_true hremark
    cases notice with
    | hit => rfl
    | _ => cases hhit
  rw [hits, hits, countP_journal hfinding, countP_journal hfinding, h]

theorem hits_say {context : LogContext Text} {notices : List Notice}
    (h : context.cacheKey = key → notices.any Notice.isHit = false) :
    (s.say context notices).hits key = s.hits key := by
  have hnone : (notices.map fun n => (⟨context, n⟩ : Remark)).countP
      (fun remark => remark.context.cacheKey = key ∧ remark.notice.isHit) = 0 := by
    rw [List.countP_eq_zero]
    intro remark hremark
    obtain ⟨notice, hnotice, rfl⟩ := List.mem_map.1 hremark
    simp only [decide_eq_true_eq]
    rintro ⟨hkey, hhit⟩
    rw [List.any_eq_false] at h
    exact h hkey notice hnotice hhit
  simp only [hits, say, List.countP_append, hnone, Nat.add_zero]

theorem hits_deliver {command : Command} {handle : Handle} {r : Request}
    {reply : Except StoreFault r.call.Reply}
    (h : r.key = key → (r.work.resume r.key s.now reply).notices.any Notice.isHit = false) :
    (s.deliver c command handle r reply).hits key = s.hits key := by
  unfold deliver
  dsimp only
  split
  · exact hits_say (s := s) h
  · exact (hits_of_findings findings_finish).trans (hits_say (s := s) h)

/-- A store call that is made to fail brings no hit. -/
theorem hits_refuse {fault : StoreFault} : (s.refuse c fault).hits key = s.hits key := by
  unfold refuse
  split
  · exact hits_of_findings findings_finish
  · rename_i request hc
    refine hits_deliver fun hkey => ?_
    rcases request with ⟨operation, k, work⟩
    cases work with
    | read stage =>
      by_cases hstage : stage = .fetching
      · subst hstage
        rfl
      · exact ReadStage.any_isHit_resume hstage
    | write call => rfl
  · rfl

/-! ### Events -/

section
variable [Store σ] [LawfulStore σ]

/-- A read that has found no live entry finds none in any event. -/
theorem isMissing_step {call call' : Call} (hgone : OnlyLapsed s.store s.now key)
    (hread : call.command.isRead) (hkey : s.cache.storeKey call.command.key = .ok key)
    (hrefused : ∀ {fault}, e = .refuse c fault → refused fault)
    (h : call.stage.IsMissing refused key call.command) (hstep : CallStep s c call e call') :
    call'.stage.IsMissing refused key call.command := by
  have hrequest := Command.request_of_isRead s.now hread hkey
  cases hstep with
  | rest | interrupt => exact h
  | drop => exact trivial
  | reject _ _ hfault => cases hrequest.symm.trans hfault
  | prepare _ _ hok =>
    cases hrequest.symm.trans hok
    dsimp only
    split
    · exact ⟨rfl, .fetching, rfl, rfl⟩
    · exact ⟨_, .timedOut, rfl⟩
  | take hstage | join hstage =>
    rw [hstage] at h
    exact h
  | @wake a request attempt outcome hstage =>
    rw [hstage] at h
    cases outcome with
    | opened => exact h
    | failed fault => exact ⟨_, .unopened, rfl⟩
    | cancelled => exact ⟨_, .cancelled, rfl⟩
  | @perform handle request hstage =>
    rw [hstage] at h
    rcases request with ⟨operation, k, work⟩
    obtain ⟨rfl, stage, rfl, hmissing⟩ := h
    exact isMissing_delivered (ReadStage.missing_performed hgone hmissing)
  | @refuse handle request fault hstage =>
    rw [hstage] at h
    rcases request with ⟨operation, k, work⟩
    obtain ⟨rfl, stage, rfl, hmissing⟩ := h
    exact isMissing_delivered (ReadStage.missing_refused hmissing (hrefused rfl))
  | turnBack | leave | breakOff => exact ⟨_, missed_interruption _, rfl⟩

theorem hits_perform (hgone : OnlyLapsed s.store s.now key) :
    (s.perform c).hits key = s.hits key := by
  unfold perform
  split
  · exact hits_of_findings findings_finish
  · rename_i request hc
    refine (hits_deliver fun hkey => ?_).trans rfl
    rcases request with ⟨operation, k, work⟩
    obtain rfl : k = key := hkey
    cases work with
    | read stage => exact ReadStage.any_isHit_performed hgone
    | write call =>
      show ((Work.write call).resume k s.now (Store.perform s.now call s.store).1).notices.any
        _ = _
      cases (Store.perform s.now call s.store).1 <;> rfl
  · rfl

/-- While all under a key has lapsed no event notes a hit under it. -/
theorem hits_step (hgone : OnlyLapsed s.store s.now key) : (s.step e).hits key = s.hits key := by
  cases hreply : e.isReply with
  | false => exact hits_of_findings (findings_step hreply)
  | true =>
    cases e with
    | perform c => exact hits_perform hgone
    | refuse c fault => exact hits_refuse
    | _ => cases hreply

end

end LiveCache

/-! ## The fleet -/

namespace Fleet

section
variable {σ : Type} [Store σ] [LawfulStore σ]
variable {s : Fleet σ} {i j c : Nat} {e : Event} {key : Text} {data : Bytes} {us : Int}
variable {refused : StoreFault → Prop} {events : List (Nat × Event)}

/-- The value was put last under the key, and the clock has passed an instant. -/
structure Past (s : Fleet σ) (key : Text) (data : Bytes) (us : Int) : Prop where
  sound : s.Sound
  aware : s.now.isAware
  put : ∃ since, lastPut? key s.log = some (data, since)
  passed : us < s.now.utcUs

/-- Only the value that was put last is ever found, and it has lapsed. -/
theorem Past.onlyLapsed (h : s.Past key data us) (hends : EndsAt data us) :
    OnlyLapsed s.store s.now key where
  valid := h.sound.valid
  legal := by
    obtain ⟨since, hput⟩ := h.put
    exact (h.sound.traced key).legal hput
  aware := h.aware
  lapsed hx := by
    obtain ⟨since, hput⟩ := h.put
    obtain ⟨⟨since', hlive⟩, -⟩ := (h.sound.traced key).live hx
    obtain ⟨rfl, -⟩ := Prod.mk.inj (Option.some.inj (hlive.symm.trans hput))
    exact ⟨us, hends, h.passed⟩

theorem Past.step (h : s.Past key data us) (he : e.isFair)
    (hnone : ∀ a ∈ s.access? i e, a.put? key = none) : (s.step i e).Past key data us where
  sound := h.sound.step he
  aware := isAware_now_step.trans h.aware
  put := by
    obtain ⟨since, hput⟩ := h.put
    rw [log_step]
    cases ha : s.access? i e with
    | none => exact ⟨since, hput⟩
    | some a => exact ⟨a :: since, (lastPut?_cons (hnone a ha) s.log).trans (congrArg _ hput)⟩
  passed := Int.lt_of_lt_of_le h.passed (le_now_step he)

/-! ### Calls and hits -/

/-- What is said of every cache holds of one of them with the fleet's store and clock. -/
theorem Past.hits_step {cache' : LiveCache σ} (h : s.Past key data us) (hends : EndsAt data us)
    (hi : (s.step i e).caches[j]? = some cache') :
    ∃ cache, s.caches[j]? = some cache ∧ cache'.hits key = cache.hits key := by
  obtain ⟨cache, hcache, ⟨-, rfl⟩ | ⟨-, rfl⟩⟩ := exists_cache_of_step hi
  · exact ⟨_, hcache, rfl⟩
  · exact ⟨cache, hcache, LiveCache.hits_step (s := s.lend cache) (h.onlyLapsed hends)⟩

/-- A read with the given number, of the given cache, that has found no live entry. -/
def IsMissing (s : Fleet σ) (refused : StoreFault → Prop) (key : Text) (j c : Nat) : Prop :=
  ∀ {cache call}, s.caches[j]? = some cache → cache.calls[c]? = some call → call.command.isRead →
    cache.cache.storeKey call.command.key = .ok key → call.stage.IsMissing refused key call.command

theorem Past.isMissing_step (h : s.Past key data us) (hends : EndsAt data us)
    (hrefused : ∀ {fault}, i = j → e = .refuse c fault → refused fault)
    (hmissing : s.IsMissing refused key j c) : (s.step i e).IsMissing refused key j c := by
  intro cache' call' hcache' hcall' hread hkey
  obtain ⟨cache, hcache, ⟨-, rfl⟩ | ⟨hij, rfl⟩⟩ := exists_cache_of_step hcache'
  · exact hmissing hcache hcall' hread hkey
  · rw [LiveCache.cache_step] at hkey
    rcases LiveCache.exists_call_of_step hcall' with
      ⟨call, hcall, hstep⟩ | ⟨command, hasTime, rfl, rfl, rfl⟩
    · have hcommand := LiveCache.command_of_callStep hstep
      rw [hcommand] at hread hkey ⊢
      exact LiveCache.isMissing_step (h.onlyLapsed hends) hread hkey (hrefused hij)
        (hmissing hcache hcall hread hkey) hstep
    · exact trivial

/-- What every event keeps from the moment the bound has passed until another put, a run keeps. -/
theorem Past.run {P : Fleet σ → Prop} (h : s.Past key data us)
    (hfair : ∀ e ∈ events, e.2.isFair) (hnone : ∀ a ∈ s.accesses events, a.put? key = none)
    (hstep : ∀ {s : Fleet σ}, s.Past key data us → ∀ e ∈ events, P s → P (s.step e.1 e.2))
    (hs : P s) : P (s.run events) := by
  induction events generalizing s with
  | nil => exact hs
  | cons e later ih =>
    have hfirst : ∀ a ∈ s.access? e.1 e.2, a.put? key = none :=
      fun a ha => hnone a (List.mem_append_right _ (by rw [ha]; exact List.mem_singleton.2 rfl))
    have hlater : ∀ a ∈ (s.step e.1 e.2).accesses later, a.put? key = none :=
      fun a ha => hnone a (List.mem_append_left _ ha)
    exact ih (h.step (hfair e List.mem_cons_self) hfirst)
      (fun e he => hfair e (List.mem_cons_of_mem _ he)) hlater
      (fun hpast e he => hstep hpast e (List.mem_cons_of_mem _ he))
      (hstep h e List.mem_cons_self hs)

end

end Fleet

/-- **The absolute bound is final.** Once the bound that a set has planned has passed, and until
another put under the key, nobody's read of the key notes a hit, and a read that begins ends as a
miss, unless it is cut short from outside. -/
theorem Fleet.missed_run {store : AnyStore} (hempty : store.IsEmpty) {now : Instant}
    (haware : now.isAware) (caches : List (Cache × Backend)) (before after : List (Nat × Event))
    (hfair : ∀ e ∈ before ++ after, e.2.isFair) {key : Text} {value data : Bytes}
    {options : ExpirationOptions} {planned bound : Instant} {plan : ExpirationPlan}
    {ttl : Option Duration} (hplan : options.plan planned = .ok plan)
    (hbound : plan.absolute = some bound)
    (hset : Command.writeCall key value options planned = .ok (.put key data ttl)) :
    let s₀ := (start store now caches).run before
    let s₁ := s₀.run after
    (∃ since, lastPut? key s₀.log = some (data, since)) → bound.utcUs < s₀.now.utcUs →
    (∀ a ∈ s₀.accesses after, a.put? key = none) →
    ∀ {i cache₁}, s₁.caches[i]? = some cache₁ → ∃ cache₀, s₀.caches[i]? = some cache₀ ∧
      cache₁.hits key = cache₀.hits key ∧
      ∀ {c call answer}, cache₁.calls[c]? = some call → call.command.isRead →
        cache₁.cache.storeKey call.command.key = .ok key → call.stage = .over answer →
        (∀ earlier ∈ cache₀.calls[c]?, earlier.stage = .created) →
        ∃ result, Missed (fun fault => (i, .refuse c fault) ∈ after) result ∧
          answer = call.command.answer result := by
  intro s₀ s₁ hput hpassed hnone i cache₁ hcache₁
  have hends := Command.endsAt_of_writeCall hplan hbound hset
  have hfair₀ : ∀ e ∈ before, e.2.isFair := fun e he => hfair e (List.mem_append_left _ he)
  have hfair₁ : ∀ e ∈ after, e.2.isFair := fun e he => hfair e (List.mem_append_right _ he)
  have hpast : s₀.Past key data bound.utcUs := {
    sound := (sound_start hempty.valid fun _ => hempty.slot?_eq_none).run hfair₀
    aware := isAware_now_run.trans haware
    put := hput
    passed := hpassed }
  obtain ⟨cache₀, hcache₀, hhits⟩ : ∃ cache₀, s₀.caches[i]? = some cache₀ ∧
      cache₁.hits key = cache₀.hits key := by
    refine hpast.run (P := fun s => ∀ {cache}, s.caches[i]? = some cache →
      ∃ cache₀, s₀.caches[i]? = some cache₀ ∧ cache.hits key = cache₀.hits key) hfair₁ hnone ?_
      (fun hcache => ⟨_, hcache, rfl⟩) hcache₁
    intro s hs e he ih cache' hcache'
    obtain ⟨cache, hcache, hsame⟩ := hs.hits_step hends hcache'
    obtain ⟨cache₀, hcache₀, hbefore⟩ := ih hcache
    exact ⟨cache₀, hcache₀, hsame.trans hbefore⟩
  refine ⟨cache₀, hcache₀, hhits, fun {c call answer} hcall hread hkey hover hfresh => ?_⟩
  have hmissing : s₁.IsMissing (fun fault => (i, .refuse c fault) ∈ after) key i c := by
    refine hpast.run hfair₁ hnone (fun hs e he => hs.isMissing_step hends ?_) ?_
    · intro fault hi hevent
      rw [← hi, ← hevent]
      exact he
    · intro cache earlier hcache hearlier
      obtain rfl : cache₀ = cache := Option.some.inj (hcache₀.symm.trans hcache)
      rw [hfresh earlier hearlier]
      exact fun _ _ => trivial
  have hend := hmissing hcache₁ hcall hread hkey
  rw [hover] at hend
  exact hend

/-- A set with a second to live, and two more seconds. -/
def Fleet.briefSet : List (Nat × Event) :=
  [(0, .start (.set "k" [1] { relative := some ⟨1000000, by decide⟩ }) true), (0, .begin 0),
    (0, .ask 0), (0, .beginAttempt 0), (0, .endAttempt 0 (.opened 0)), (0, .wake 0),
    (0, .perform 0), (0, .advance ⟨2000000, by decide⟩)]

/-- What the set writes. -/
def Fleet.briefValue : Bytes :=
  ("\x7b\"absexp\":\"0001-01-01T00:00:01+00:00\"\x7d" : Text).flatMap CodePoint.octets
    ++ [Entry.lineFeed, 1]

/-- A read through another cache. -/
def Fleet.otherGet : List (Nat × Event) :=
  [(1, .start (.get "k") true), (1, .begin 0), (1, .ask 0), (1, .beginAttempt 0),
    (1, .endAttempt 0 (.opened 0)), (1, .wake 0), (1, .perform 0), (1, .perform 0)]

/-- The read comes too late. -/
theorem Fleet.missed_run_otherGet :
    let s₀ := (start (AnyStore.memory {}) default
      [({}, ⟨"cache", false⟩), ({}, ⟨"cache", false⟩)]).run briefSet
    ∃ cache call answer, (s₀.run otherGet).caches[1]? = some cache ∧ cache.calls[0]? = some call ∧
      call.stage = .over answer ∧
      ∃ result, Missed (fun fault => (1, .refuse 0 fault) ∈ otherGet) result ∧
        answer = call.command.answer result := by
  intro s₀
  have hend : ((s₀.run otherGet).caches[1]?.any fun cache => cache.calls[0]?.any fun call =>
      call.command.isRead &&
        (cache.cache.storeKey call.command.key).toOption == some ("k" : Text) &&
          (cache.answer? 0).isSome) = true := by decide +kernel
  obtain ⟨cache, hcache, hcall⟩ := (Option.any_eq_true _ _).1 hend
  obtain ⟨call, hcall, hchecks⟩ := (Option.any_eq_true _ _).1 hcall
  simp only [Bool.and_eq_true, beq_iff_eq] at hchecks
  obtain ⟨⟨hread, hkey⟩, hover⟩ := hchecks
  obtain ⟨answer, hanswer⟩ : ∃ answer, call.stage = .over answer := by
    obtain ⟨answer, hanswer⟩ := Option.isSome_iff_exists.1 hover
    exact ⟨answer, LiveCache.answer?_eq_some hcall hanswer⟩
  have hput : ∃ since, lastPut? "k" s₀.log = some (briefValue, since) := by
    have hvalue : (lastPut? "k" s₀.log).map Prod.fst = some briefValue := by decide +kernel
    obtain ⟨⟨value, since⟩, hput, rfl⟩ := Option.map_eq_some_iff.1 hvalue
    exact ⟨since, hput⟩
  have hplan : ExpirationOptions.plan { relative := some ⟨1000000, by decide⟩ } (default : Instant) =
      .ok ⟨some ⟨1000000, by decide⟩, some ⟨1000000, some .utc, by decide⟩, none⟩ :=
    Chain.eq_ok_of_toOption (by decide +kernel)
  have hset : Command.writeCall "k" [1] { relative := some ⟨1000000, by decide⟩ } default =
      .ok (.put "k" briefValue (some ⟨1000000, by decide⟩)) :=
    Chain.eq_ok_of_toOption (by decide +kernel)
  obtain ⟨cache₀, hcache₀, -, hcalls⟩ := missed_run .memory rfl
    [({}, ⟨"cache", false⟩), ({}, ⟨"cache", false⟩)] briefSet otherGet (by decide) hplan rfl hset
    hput (by decide +kernel) (by decide +kernel) hcache
  refine ⟨cache, call, answer, hcache, hcall, hanswer, ?_⟩
  refine hcalls hcall hread (Chain.eq_ok_of_toOption hkey) hanswer fun earlier hearlier => ?_
  have hnone : (s₀.caches[1]?.all fun cache => cache.calls[0]?.isNone) = true := by decide +kernel
  rw [hcache₀] at hnone
  simp only [Option.all_some, Option.isNone_iff_eq_none] at hnone
  rw [hnone] at hearlier
  cases hearlier

end SlidingCache
