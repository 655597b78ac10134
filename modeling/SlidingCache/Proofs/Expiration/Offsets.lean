import SlidingCache.Proofs.Entry
import SlidingCache.Proofs.Expiration.Exact
import SlidingCache.Proofs.Sequence.Calls

/-!
# Offsets do not matter

One point of time can be written with many offsets. Which one a bound is written with makes no
difference to a write: each step of it, the check, the plan, the header and the store call, comes out
the same for both, or fails for both (`Command.actAlike_of_isSame`). Only the words of a refusal tell
them apart, for it names the bound as it was written (`CacheFault.Alike`).
-/

namespace SlidingCache

/-! ## Two runs of a chain -/

/-- Both end with values that are related, or both end with faults that are. -/
inductive Chain.Agree {ε α : Type} (R : ε → ε → Prop) (S : α → α → Prop) :
    Except ε α → Except ε α → Prop
  | ok {a b} : S a b → Agree R S (.ok a) (.ok b)
  | error {e f} : R e f → Agree R S (.error e) (.error f)

namespace Chain.Agree

variable {ε ε' α β : Type} {R : ε → ε → Prop} {R' : ε' → ε' → Prop} {S : α → α → Prop}
  {T : β → β → Prop}

theorem of_eq {x y : Except ε α} (hR : ∀ e, R e e) (hS : ∀ a, S a a) (h : x = y) : Agree R S x y := by
  subst h
  cases x with
  | ok a => exact .ok (hS a)
  | error e => exact .error (hR e)

theorem bind {x y : Except ε α} {f g : α → Except ε β} (h : Agree R S x y)
    (hfg : ∀ a b, S a b → Agree R T (f a) (g b)) : Agree R T (x >>= f) (y >>= g) := by
  cases h with
  | ok hab => exact hfg _ _ hab
  | error hef => exact .error hef

theorem mapError {x y : Except ε α} {f : ε → ε'} (h : Agree R S x y)
    (hf : ∀ a b, R a b → R' (f a) (f b)) : Agree R' S (x.mapError f) (y.mapError f) := by
  cases h with
  | ok hab => exact .ok hab
  | error hab => exact .error (hf _ _ hab)

end Chain.Agree

open Chain (Agree)

/-! ## The same point of time -/

/-- The instants are the same point of time, whatever their offsets. -/
structure Instant.IsSame (i j : Instant) : Prop where
  left : i.isAware
  right : j.isAware
  utcUs : i.utcUs = j.utcUs

namespace Instant.IsSame

variable {i j : Instant}

theorem le? (h : i.IsSame j) (now : Instant) : i.le? now = j.le? now := by
  rw [Instant.le?, Instant.le?, Instant.compare?, Instant.compare?, h.left, h.right, h.utcUs]

theorem since? (h : i.IsSame j) (now : Instant) : i.since? now = j.since? now := by
  rw [Instant.since?, Instant.since?, h.left, h.right, Instant.since_congr h.utcUs]

theorem inUtc (h : i.IsSame j) : i.inUtc = j.inUtc := by
  rw [Instant.inUtc, Instant.inUtc, h.left, h.right]
  simp only [Bool.not_true, Bool.false_eq_true, false_and, if_false, Instant.withReading, h.utcUs]

end Instant.IsSame

/-- The same bound: none for both, or the same point of time. -/
inductive SameBound : Option Instant → Option Instant → Prop
  | refl (bound) : SameBound bound bound
  | written {i j} : i.IsSame j → SameBound (some i) (some j)

theorem SameBound.mapM_inUtc {a b : Option Instant} (h : SameBound a b) :
    a.mapM Instant.inUtc = b.mapM Instant.inUtc := by
  cases h with
  | refl => rfl
  | written h =>
    rw [Option.mapM_some, Option.mapM_some, h.inUtc]

/-- The faults are of one kind and tell of the same, but for the words of a bound that has passed. -/
inductive CacheFault.Alike : CacheFault → CacheFault → Prop
  | refl (fault) : Alike fault fault
  | past (i j) : Alike (.plan (.option (.absolutePast i))) (.plan (.option (.absolutePast j)))

/-! ## Plans -/

namespace ExpirationOptions

variable {i j : Instant}

/-- Faults of a plan, told as those of the cache. -/
def AlikePlans (e f : PlanFault) : Prop := CacheFault.Alike (.plan e) (.plan f)

theorem alikePlans_refl (e : PlanFault) : AlikePlans e e := .refl _

theorem alike_checkAbsolute (h : i.IsSame j) (o : ExpirationOptions) (now : Instant) :
    Agree AlikePlans Eq (checkAbsolute { o with absolute := some i } now)
      (checkAbsolute { o with absolute := some j } now) := by
  simp only [checkAbsolute, Timeline.isAware_instant, Timeline.le?_instant, h.left, h.right,
    h.le? now]
  cases j.le? now with
  | error e => exact .error (.refl _)
  | ok past =>
    cases past with
    | false => exact .ok rfl
    | true => exact .error (.past i j)

theorem alike_check (h : i.IsSame j) (o : ExpirationOptions) (now : Instant) :
    Agree AlikePlans Eq (check { o with absolute := some i } now)
      (check { o with absolute := some j } now) := by
  apply (alike_checkAbsolute h o now).bind
  intro _ _ _
  exact .of_eq alikePlans_refl (fun _ => rfl) rfl

theorem alike_bound (h : i.IsSame j) (o : ExpirationOptions) (now : Instant) :
    Agree Eq SameBound (bound { o with absolute := some i } now)
      (bound { o with absolute := some j } now) := by
  unfold bound
  cases o.relative with
  | some d => exact .of_eq (fun _ => rfl) .refl rfl
  | none => exact .ok (.written h)

/-- The plans differ at most in how the bound is written. -/
structure SamePlan (p q : ExpirationPlan) : Prop where
  ttl : p.ttl = q.ttl
  absolute : SameBound p.absolute q.absolute
  sliding : p.sliding = q.sliding

theorem ttlTo_congr (h : i.IsSame j) (sliding : Option Duration) (now : Instant) :
    ttlTo i sliding now = ttlTo j sliding now := by
  rw [ttlTo, ttlTo, Timeline.since?_instant, Timeline.since?_instant, h.since? now]

theorem alike_plan (h : i.IsSame j) (o : ExpirationOptions) (now : Instant) :
    Agree AlikePlans SamePlan (plan { o with absolute := some i } now)
      (plan { o with absolute := some j } now) := by
  apply (alike_check h o now).bind
  intro _ _ _
  have hbound : Agree AlikePlans SameBound
      (PlanFault.ofTime (bound { o with absolute := some i } now))
      (PlanFault.ofTime (bound { o with absolute := some j } now)) := by
    apply (alike_bound h o now).mapError
    intro e f hef
    subst hef
    exact alikePlans_refl _
  apply hbound.bind
  intro a b hab
  cases hab with
  | refl bound =>
    refine .of_eq alikePlans_refl (fun plan => ?_) rfl
    exact ⟨rfl, .refl _, rfl⟩
  | written hsame =>
    dsimp only
    rw [ttlTo_congr hsame]
    refine Agree.bind (.of_eq alikePlans_refl (fun _ => rfl) rfl) ?_
    intro ttl ttl' httl
    subst httl
    exact .ok ⟨rfl, .written hsame, rfl⟩

end ExpirationOptions

/-! ## Headers and calls -/

theorem Entry.encode_congr {payload : Bytes} {a b : Option Instant} (h : SameBound a b)
    (sliding : Option Duration) :
    Entry.encode ⟨payload, a, sliding⟩ = Entry.encode ⟨payload, b, sliding⟩ := by
  simp only [Entry.encode, Entry.headerFields, h.mapM_inUtc]

namespace Command

variable {i j : Instant} {key : Text} {value : Bytes}

/-- The same call, and it is a put. -/
def SamePut (key : Text) (call call' : StoreCall) : Prop :=
  ∃ data ttl, call = .put key data ttl ∧ call' = .put key data ttl

theorem alike_writeCall (h : i.IsSame j) (o : ExpirationOptions) (now : Instant) :
    Agree CacheFault.Alike (SamePut key) (writeCall key value { o with absolute := some i } now)
      (writeCall key value { o with absolute := some j } now) := by
  have hput {x y : Except CacheFault StoreCall} (hxy : Agree CacheFault.Alike Eq x y)
      (hx : ∀ call, x = .ok call → ∃ data ttl, call = .put key data ttl) :
      Agree CacheFault.Alike (SamePut key) x y := by
    cases hxy with
    | error hef => exact .error hef
    | @ok call call' heq =>
      subst heq
      obtain ⟨data, ttl, rfl⟩ := hx call rfl
      exact .ok ⟨data, ttl, rfl, rfl⟩
  refine hput ?_ fun call hcall => ?_
  · have hplan : Agree CacheFault.Alike ExpirationOptions.SamePlan
        ((ExpirationOptions.plan { o with absolute := some i } now).mapError CacheFault.plan)
        ((ExpirationOptions.plan { o with absolute := some j } now).mapError CacheFault.plan) :=
      (ExpirationOptions.alike_plan h o now).mapError fun _ _ hef => hef
    apply hplan.bind
    intro p q hpq
    rw [hpq.sliding, hpq.ttl, Entry.encode_congr hpq.absolute]
    exact .of_eq .refl (fun _ => rfl) rfl
  · obtain ⟨plan, hplan, -⟩ := Chain.bind_eq_ok.1 hcall
    obtain ⟨data, hdata⟩ :=
      ExpirationOptions.writeCall_of_plan (Chain.mapError_eq_ok.1 hplan) hcall
    exact ⟨data, plan.ttl, hdata⟩

/-- The same request: to put some data under the store key, for some time to live. -/
def SameRequest (r r' : Request) : Prop :=
  r = r' ∧ ∃ data ttl, r.call = .put r.key data ttl

theorem alike_request (h : i.IsSame j) (o : ExpirationOptions) (cache : Cache) (now : Instant) :
    Agree CacheFault.Alike SameRequest
      ((Command.set key value { o with absolute := some i }).request cache now)
      ((Command.set key value { o with absolute := some j }).request cache now) := by
  have hkey : Agree CacheFault.Alike Eq ((cache.storeKey key).mapError CacheFault.invalidKey)
      ((cache.storeKey key).mapError .invalidKey) := .of_eq .refl (fun _ => rfl) rfl
  apply hkey.bind
  intro k k' hk
  subst hk
  have hwork : Agree CacheFault.Alike (fun w w' => w = w' ∧ ∃ data ttl, w = .write (.put k data ttl))
      (Work.write <$> writeCall k value { o with absolute := some i } now)
      (Work.write <$> writeCall k value { o with absolute := some j } now) := by
    have hcall : Agree CacheFault.Alike (SamePut k)
        (writeCall k value { o with absolute := some i } now)
        (writeCall k value { o with absolute := some j } now) := alike_writeCall h o now
    generalize writeCall k value { o with absolute := some i } now = call at hcall
    generalize writeCall k value { o with absolute := some j } now = call' at hcall
    cases hcall with
    | error hef => exact .error hef
    | ok hput =>
      obtain ⟨data, ttl, rfl, rfl⟩ := hput
      exact .ok ⟨rfl, data, ttl, rfl⟩
  apply hwork.bind
  intro w w' hw
  obtain ⟨rfl, data, ttl, rfl⟩ := hw
  exact .ok ⟨rfl, data, ttl, rfl⟩

/-- A writer is told the same whatever the options. -/
theorem answer_set {o o' : ExpirationOptions} (result : Except CacheFault (Option Bytes)) :
    (Command.set key value o).answer result = (Command.set key value o').answer result := by
  cases result with
  | ok payload => rfl
  | error fault => rfl

/-- What it means that two commands do the same. -/
structure ActAlike (σ : Type) [Store σ] (one other : Command) : Prop where
  /-- They are refused alike, or they ask the store to put the same under the same key for the same
  time. -/
  request : ∀ cache now, Agree CacheFault.Alike SameRequest (one.request cache now)
    (other.request cache now)
  /-- They are answered alike by a cache at rest and leave the same store behind. -/
  call : ∀ s : LiveCache σ, s.AtRest → ∃ answer answer',
    (s.call one true).1 = some answer ∧ (s.call other true).1 = some answer' ∧
      Agree CacheFault.Alike Eq answer answer' ∧
        (s.call one true).2.store = (s.call other true).2.store

/-- **The offset of a bound is irrelevant.** -/
theorem actAlike_of_isSame {σ : Type} [Store σ] (h : i.IsSame j) (key : Text) (value : Bytes)
    (o : ExpirationOptions) :
    ActAlike σ (.set key value { o with absolute := some i })
      (.set key value { o with absolute := some j }) where
  request cache now := alike_request h o cache now
  call s hrest := by
    have halike : Agree CacheFault.Alike SameRequest
        ((Command.set key value { o with absolute := some i }).request s.cache s.now)
        ((Command.set key value { o with absolute := some j }).request s.cache s.now) :=
      alike_request h o s.cache s.now
    generalize hone : (Command.set key value { o with absolute := some i }).request s.cache s.now =
      one at halike
    generalize hother : (Command.set key value { o with absolute := some j }).request s.cache s.now =
      other at halike
    cases halike with
    | error hef =>
      obtain ⟨hanswer, hsettled⟩ := LiveCache.call_of_error hrest hone
      obtain ⟨hanswer', hsettled'⟩ := LiveCache.call_of_error hrest hother
      exact ⟨_, _, hanswer, hanswer', .error hef, hsettled.store.trans hsettled'.store.symm⟩
    | ok hsame =>
      obtain ⟨rfl, -⟩ := hsame
      obtain ⟨hanswer, hsettled⟩ := LiveCache.call_of_ok hrest hone Work.rank_le
      obtain ⟨hanswer', hsettled'⟩ := LiveCache.call_of_ok hrest hother Work.rank_le
      refine ⟨_, _, hanswer, hanswer', ?_, hsettled.store.trans hsettled'.store.symm⟩
      exact .of_eq CacheFault.Alike.refl (fun _ => rfl) (answer_set _)

/-- The last microsecond of the calendar by a clock that is one microsecond ahead, and the last but
one in UTC. -/
theorem actAlike_lastMicrosecond :
    let last : Instant := ⟨315537897599999999, some ⟨1, by decide⟩, by decide⟩
    let lastInUtc : Instant := ⟨315537897599999998, some .utc, by decide⟩
    last.IsSame lastInUtc ∧ ActAlike MemoryStore (.set "k" [1] { absolute := some last })
      (.set "k" [1] { absolute := some lastInUtc }) := by
  intro last lastInUtc
  have hsame : last.IsSame lastInUtc := ⟨rfl, rfl, by decide⟩
  exact ⟨hsame, actAlike_of_isSame hsame "k" [1] {}⟩

end Command

end SlidingCache
