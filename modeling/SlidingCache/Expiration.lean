import SlidingCache.Time.Timeline

/-!
# Expiration

A write may ask for an absolute end, an end relative to now and a sliding window, any of them or
none. `ExpirationOptions.plan` checks the wishes and folds them into what the store and the entry
need: the time to live, the absolute bound and the window. `renewalTtl` is the time to live of an
entry whose window starts anew.

Planning asks no more of the values that tell the time than that they form a `Timeline`. A cache
plans with instants.
-/

namespace SlidingCache

structure ExpirationOptions (ι : Type := Instant) where
  absolute : Option ι := none
  relative : Option Duration := none
  sliding : Option Duration := none
  deriving DecidableEq, Inhabited

/-- Why options are refused. -/
inductive OptionFault (ι : Type := Instant) where
  | absoluteNaive (absolute : ι)
  | absolutePast (absolute : ι)
  | relativeNotPositive (relative : Duration)
  | slidingNotPositive (sliding : Duration)
  deriving DecidableEq

/-- A refused argument: its name, its value as text and the reason. -/
structure InvalidArgument where
  name : Text
  value : Text
  reason : Text
  deriving DecidableEq

def InvalidArgument.message (e : InvalidArgument) : Text :=
  e.name ++ ("=" : Text) ++ e.value ++ (": " : Text) ++ e.reason

def OptionFault.argument {ι : Type} [Timeline ι] : OptionFault ι → InvalidArgument
  | absoluteNaive i =>
    ⟨"absolute_expiration", Timeline.description i,
      "The absolute expiration must be timezone-aware."⟩
  | absolutePast i =>
    ⟨"absolute_expiration", Timeline.description i,
      "The absolute expiration value must be in the future."⟩
  | relativeNotPositive d =>
    ⟨"absolute_expiration_relative_to_now", d.description,
      "The relative expiration value must be positive."⟩
  | slidingNotPositive d =>
    ⟨"sliding_expiration", d.description, "The sliding expiration value must be positive."⟩

/-- What stops a plan. -/
inductive PlanFault (ι : Type := Instant) where
  | option (fault : OptionFault ι)
  | time (fault : TimeFault)
  deriving DecidableEq

/-- What a write hands to the store and puts into the entry. -/
structure ExpirationPlan (ι : Type := Instant) where
  ttl : Option Duration
  absolute : Option ι
  sliding : Option Duration
  deriving DecidableEq

/-- Lifts the faults of time arithmetic into those of a plan. -/
def PlanFault.ofTime {ι α : Type} : Except TimeFault α → Except (PlanFault ι) α :=
  Except.mapError .time

variable {ι : Type} [Timeline ι]

namespace ExpirationOptions

def checkAbsolute (o : ExpirationOptions ι) (now : ι) : Except (PlanFault ι) Unit :=
  match o.absolute with
  | none => .ok ()
  | some absolute => do
    if !Timeline.isAware absolute then throw (.option (.absoluteNaive absolute))
    if ← PlanFault.ofTime (Timeline.le? absolute now) then
      throw (.option (.absolutePast absolute))

def checkRelative (o : ExpirationOptions ι) : Except (PlanFault ι) Unit :=
  match o.relative with
  | some d => if d.isPositive then .ok () else .error (.option (.relativeNotPositive d))
  | none => .ok ()

def checkSliding (o : ExpirationOptions ι) : Except (PlanFault ι) Unit :=
  match o.sliding with
  | some d => if d.isPositive then .ok () else .error (.option (.slidingNotPositive d))
  | none => .ok ()

/-- The first fault of the options: of the absolute end, of the relative one, of the window. -/
def check (o : ExpirationOptions ι) (now : ι) : Except (PlanFault ι) Unit := do
  o.checkAbsolute now
  o.checkRelative
  o.checkSliding

/-- The absolute bound; a relative end goes before an absolute one. -/
def bound (o : ExpirationOptions ι) (now : ι) : Except TimeFault (Option ι) :=
  match o.relative with
  | some d => some <$> Timeline.add now d
  | none => .ok o.absolute

/-- The time to live up to a bound: nothing beyond it, and at most the window. -/
def ttlTo (bound : ι) (sliding : Option Duration) (now : ι) : Except TimeFault Duration := do
  let left ← Timeline.since? bound now
  if !left.isPositive then return .zero
  return match sliding with
    | some s => min left s
    | none => left

def plan (o : ExpirationOptions ι) (now : ι) : Except (PlanFault ι) (ExpirationPlan ι) := do
  o.check now
  match ← PlanFault.ofTime (o.bound now) with
  | none => return ⟨o.sliding, none, o.sliding⟩
  | some bound =>
    return ⟨some (← PlanFault.ofTime (ttlTo bound o.sliding now)), some bound, o.sliding⟩

end ExpirationOptions

/-- The time to live of a renewed entry: the window, cut off at the bound. Zero or less once the
bound has passed. -/
def renewalTtl (bound : Option ι) (sliding : Duration) (now : ι) : Except TimeFault Duration :=
  match bound with
  | none => .ok sliding
  | some bound => return min sliding (← Timeline.since? bound now)

end SlidingCache
