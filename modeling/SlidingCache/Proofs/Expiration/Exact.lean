import SlidingCache.Cache.Request
import SlidingCache.Proofs.Expiration

/-!
# Plans are exact

Options are refused for the first argument that has a fault, whatever a later argument overrides
(`ExpirationOptions.plan_eq_option_iff`). What is not refused fails only if the end that is counted
from now lies outside the calendar (`ExpirationOptions.plan_eq_time_iff`), and everything else gets
a plan whose time to live is the least of what limits it (`ExpirationOptions.isExact_of_plan`). The
renewal at the time of the write computes the same time to live in another way, and a renewal at any
other time does not reach beyond the bound.

`ExpirationOptions.exact_of_aware` puts this together. It holds of all values that tell the time.
What lies ahead does so by its value in UTC, but for readings of one clock, and the clock may be set
between them: then an entry may live longer than to the bound, and a bound may be refused that has
yet to come (`ExpirationOptions.inexact_summer`).
-/

namespace SlidingCache

open Timeline (Comparable ahead between isAware)

variable {ι : Type}

/-! ## Faults of options -/

namespace OptionFault

/-- Whether the options have the fault. -/
def IsIn [Timeline ι] (o : ExpirationOptions ι) (now : ι) : OptionFault ι → Prop
  | absoluteNaive i => o.absolute = some i ∧ isAware i = false
  | absolutePast i => o.absolute = some i ∧ isAware i ∧ ahead i now ≤ 0
  | relativeNotPositive d => o.relative = some d ∧ d.us ≤ 0
  | slidingNotPositive d => o.sliding = some d ∧ d.us ≤ 0

/-- The arguments of a write in the order in which they are checked. -/
def arguments : List Text :=
  ["absolute_expiration", "absolute_expiration_relative_to_now", "sliding_expiration"]

/-- Where the argument that a fault names stands in this order. -/
def place [Timeline ι] (fault : OptionFault ι) : Nat := arguments.idxOf fault.argument.name

variable [Timeline ι] {i : ι} {d : Duration}

@[simp] theorem place_absoluteNaive : (absoluteNaive i).place = 0 := by
  show arguments.idxOf ("absolute_expiration" : Text) = 0
  decide

@[simp] theorem place_absolutePast : (absolutePast i).place = 0 := by
  show arguments.idxOf ("absolute_expiration" : Text) = 0
  decide

@[simp] theorem place_relativeNotPositive :
    (relativeNotPositive d : OptionFault ι).place = 1 := by
  show arguments.idxOf ("absolute_expiration_relative_to_now" : Text) = 1
  decide

@[simp] theorem place_slidingNotPositive :
    (slidingNotPositive d : OptionFault ι).place = 2 := by
  show arguments.idxOf ("sliding_expiration" : Text) = 2
  decide

/-- The check of the argument at a place: it fails just for the fault of that argument. -/
structure Checks (o : ExpirationOptions ι) (now : ι) (n : Nat) (x : Except (PlanFault ι) Unit) :
    Prop where
  found {e : PlanFault ι} : x = .error e →
    ∃ fault, e = .option fault ∧ fault.IsIn o now ∧ fault.place = n
  told {fault : OptionFault ι} : fault.IsIn o now → fault.place = n → x = .error (.option fault)

/-- A check that passes leaves no fault at its place. -/
theorem Checks.place_ne {o : ExpirationOptions ι} {now : ι} {n : Nat}
    {x : Except (PlanFault ι) Unit} {fault : OptionFault ι} (h : Checks o now n x) (hx : x = .ok ())
    (hin : fault.IsIn o now) : fault.place ≠ n := by
  intro hplace
  rw [h.told hin hplace] at hx
  cases hx

end OptionFault

namespace ExpirationOptions

open OptionFault (Checks IsIn)

variable [Timeline ι] {o : ExpirationOptions ι} {now : ι} {plan : ExpirationPlan ι}
  {fault : OptionFault ι}

theorem checkAbsolute_of_naive {i : ι} (hi : o.absolute = some i) (haware : isAware i = false) :
    o.checkAbsolute now = .error (.option (.absoluteNaive i)) := by
  rw [checkAbsolute, hi]
  dsimp only
  rw [haware]
  rfl

theorem checkAbsolute_of_aware {i : ι} (hnow : isAware now) (hi : o.absolute = some i)
    (haware : isAware i) : o.checkAbsolute now =
      if ahead i now ≤ 0 then .error (.option (.absolutePast i)) else .ok () := by
  have hpast : (PlanFault.ofTime (Timeline.le? i now) : Except (PlanFault ι) Bool) =
      .ok (decide (ahead i now ≤ 0)) := by
    rw [Timeline.le?_eq (Timeline.comparable_of_isAware haware hnow)]
    rfl
  rw [checkAbsolute, hi]
  dsimp only
  rw [haware, hpast]
  by_cases hle : ahead i now ≤ 0
  · rw [decide_eq_true hle, if_pos hle]
    rfl
  · rw [decide_eq_false hle, if_neg hle]
    rfl

theorem checks_absolute (hnow : isAware now) : Checks o now 0 (o.checkAbsolute now) where
  found {e} h := by
    cases hi : o.absolute with
    | none =>
      rw [checkAbsolute, hi] at h
      cases h
    | some i =>
      cases haware : isAware i with
      | false =>
        rw [checkAbsolute_of_naive hi haware] at h
        cases h
        exact ⟨_, rfl, ⟨hi, haware⟩, OptionFault.place_absoluteNaive⟩
      | true =>
        rw [checkAbsolute_of_aware hnow hi haware] at h
        split at h
        · rename_i hle
          cases h
          exact ⟨_, rfl, ⟨hi, haware, hle⟩, OptionFault.place_absolutePast⟩
        · cases h
  told {fault} hin hplace := by
    cases fault with
    | absoluteNaive i => exact checkAbsolute_of_naive hin.1 hin.2
    | absolutePast i =>
      obtain ⟨hi, haware, hle⟩ := hin
      rw [checkAbsolute_of_aware hnow hi haware, if_pos hle]
    | relativeNotPositive d => simp at hplace
    | slidingNotPositive d => simp at hplace

theorem checks_relative : Checks o now 1 o.checkRelative where
  found {e} h := by
    unfold checkRelative at h
    split at h
    · rename_i d hd
      split at h
      · cases h
      · rename_i hpos
        cases h
        rw [Duration.isPositive_iff, Int.not_lt] at hpos
        exact ⟨_, rfl, ⟨hd, hpos⟩, OptionFault.place_relativeNotPositive⟩
    · cases h
  told {fault} hin hplace := by
    cases fault with
    | relativeNotPositive d =>
      obtain ⟨hd, hle⟩ := hin
      have hpos : ¬ d.isPositive := by
        rw [Duration.isPositive_iff]
        omega
      simp only [checkRelative, hd, hpos, Bool.false_eq_true, if_false]
    | absoluteNaive i => simp at hplace
    | absolutePast i => simp at hplace
    | slidingNotPositive d => simp at hplace

theorem checks_sliding : Checks o now 2 o.checkSliding where
  found {e} h := by
    unfold checkSliding at h
    split at h
    · rename_i d hd
      split at h
      · cases h
      · rename_i hpos
        cases h
        rw [Duration.isPositive_iff, Int.not_lt] at hpos
        exact ⟨_, rfl, ⟨hd, hpos⟩, OptionFault.place_slidingNotPositive⟩
    · cases h
  told {fault} hin hplace := by
    cases fault with
    | slidingNotPositive d =>
      obtain ⟨hd, hle⟩ := hin
      have hpos : ¬ d.isPositive := by
        rw [Duration.isPositive_iff]
        omega
      simp only [checkSliding, hd, hpos, Bool.false_eq_true, if_false]
    | absoluteNaive i => simp at hplace
    | absolutePast i => simp at hplace
    | relativeNotPositive d => simp at hplace

theorem check_eq_error {e : PlanFault ι} (hnow : isAware now) (h : o.check now = .error e) :
    ∃ fault, e = .option fault ∧ fault.IsIn o now ∧
      ∀ other : OptionFault ι, other.IsIn o now → fault.place ≤ other.place := by
  rcases Chain.bind_eq_error.1 h with habsolute | ⟨⟨⟩, habsolute, h⟩
  · obtain ⟨fault, rfl, hin, hplace⟩ := (checks_absolute hnow).found habsolute
    exact ⟨fault, rfl, hin, fun other _ => by omega⟩
  have hzero {other : OptionFault ι} (hother : other.IsIn o now) : other.place ≠ 0 :=
    (checks_absolute hnow).place_ne habsolute hother
  rcases Chain.bind_eq_error.1 h with hrelative | ⟨⟨⟩, hrelative, hsliding⟩
  · obtain ⟨fault, rfl, hin, hplace⟩ := checks_relative.found hrelative
    refine ⟨fault, rfl, hin, fun other hother => ?_⟩
    have := hzero hother
    omega
  · obtain ⟨fault, rfl, hin, hplace⟩ := checks_sliding.found hsliding
    refine ⟨fault, rfl, hin, fun other hother => ?_⟩
    have := hzero hother
    have := checks_relative.place_ne hrelative hother
    omega

/-- The first fault is the one that is told. -/
theorem check_of_isIn (hnow : isAware now) (hin : fault.IsIn o now)
    (hfirst : ∀ other : OptionFault ι, other.IsIn o now → fault.place ≤ other.place) :
    o.check now = .error (.option fault) := by
  have hpass {n : Nat} {x : Except (PlanFault ι) Unit} (hx : Checks o now n x)
      (hlt : n < fault.place) : x = .ok () := by
    cases hxe : x with
    | ok => rfl
    | error e =>
      obtain ⟨other, -, hother, hplace⟩ := hx.found hxe
      have := hfirst other hother
      omega
  have hplace : fault.place = 0 ∨ fault.place = 1 ∨ fault.place = 2 := by cases fault <;> simp
  rcases hplace with hzero | hone | htwo
  · exact Chain.bind_eq_error.2 (.inl ((checks_absolute hnow).told hin hzero))
  · have habsolute := hpass (checks_absolute hnow) (by omega)
    refine Chain.bind_eq_error.2 (.inr ⟨(), habsolute, ?_⟩)
    exact Chain.bind_eq_error.2 (.inl (checks_relative.told hin hone))
  · have habsolute := hpass (checks_absolute hnow) (by omega)
    have hrelative := hpass checks_relative (by omega)
    refine Chain.bind_eq_error.2 (.inr ⟨(), habsolute, ?_⟩)
    exact Chain.bind_eq_error.2 (.inr ⟨(), hrelative, checks_sliding.told hin htwo⟩)

theorem check_eq_ok_iff (hnow : isAware now) :
    o.check now = .ok () ↔ ∀ fault : OptionFault ι, ¬ fault.IsIn o now := by
  constructor
  · intro h fault hin
    obtain ⟨⟨⟩, habsolute, h⟩ := Chain.bind_eq_ok.1 h
    obtain ⟨⟨⟩, hrelative, hsliding⟩ := Chain.bind_eq_ok.1 h
    have := (checks_absolute hnow).place_ne habsolute hin
    have := checks_relative.place_ne hrelative hin
    have := checks_sliding.place_ne hsliding hin
    cases fault <;> simp_all
  · intro h
    cases hcheck : o.check now with
    | ok => rfl
    | error e =>
      obtain ⟨fault, -, hin, -⟩ := check_eq_error hnow hcheck
      exact absurd hin (h fault)

/-! ## Plans -/

/-- The time to live up to a bound that lies ahead. -/
def limit (o : ExpirationOptions ι) (bound now : ι) : Duration :=
  match o.sliding with
  | some window => min (between bound now) window
  | none => between bound now

variable [LawfulTimeline ι]

/-- What becomes of options that are not refused. -/
theorem plan_of_check (hcheck : o.check now = .ok ()) :
    o.plan now = match o.bound now with
      | .error e => .error (.time e)
      | .ok none => .ok ⟨o.sliding, none, o.sliding⟩
      | .ok (some bound) => .ok ⟨some (o.limit bound now), some bound, o.sliding⟩ := by
  rw [plan, hcheck, Chain.ok_bind]
  cases hbound : o.bound now with
  | error e => rfl
  | ok bound =>
    cases bound with
    | none => rfl
    | some bound =>
      obtain ⟨hcomparable, hahead⟩ := bound_eq_ok hcheck hbound bound rfl
      have hlimit : (PlanFault.ofTime (ttlTo bound o.sliding now) : Except (PlanFault ι) Duration) =
          .ok (o.limit bound now) := by
        rw [ttlTo_eq hcomparable hahead]
        rfl
      show (PlanFault.ofTime (ttlTo bound o.sliding now) >>= fun ttl =>
        pure (⟨some ttl, some bound, o.sliding⟩ : ExpirationPlan ι)) = _
      rw [hlimit]
      rfl

theorem bound_eq_error_iff {e : TimeFault} : o.bound now = .error e ↔ e = .outOfCalendar ∧
    ∃ d, o.relative = some d ∧ ((Timeline.instant now).reading + d.us < 0 ∨
      (calendarUs : Int) ≤ (Timeline.instant now).reading + d.us) := by
  rw [bound]
  cases o.relative with
  | none => simp
  | some d =>
    simp only [Option.some.injEq, exists_eq_left', ← LawfulTimeline.add_eq_error_iff]
    constructor
    · intro h
      cases hadd : Timeline.add now d with
      | error e' =>
        rw [hadd] at h
        cases h
        rfl
      | ok i =>
        rw [hadd] at h
        cases h
    · intro h
      rw [h]
      rfl

/-- **The first offender is told.** -/
theorem plan_eq_option_iff (hnow : isAware now) : o.plan now = .error (.option fault) ↔
    fault.IsIn o now ∧ ∀ other : OptionFault ι, other.IsIn o now → fault.place ≤ other.place := by
  constructor
  · intro h
    cases hcheck : o.check now with
    | ok =>
      rw [plan_of_check hcheck] at h
      split at h <;> cases h
    | error e =>
      rw [plan, hcheck] at h
      cases h
      obtain ⟨fault', heq, hfirst⟩ := check_eq_error hnow hcheck
      cases heq
      exact hfirst
  · rintro ⟨hin, hfirst⟩
    rw [plan, check_of_isIn hnow hin hfirst]
    rfl

/-- Nothing else is wrong but an end outside the calendar. -/
theorem plan_eq_time_iff (hnow : isAware now) {e : TimeFault} : o.plan now = .error (.time e) ↔
    (∀ fault : OptionFault ι, ¬ fault.IsIn o now) ∧ e = .outOfCalendar ∧
      ∃ d, o.relative = some d ∧ ((Timeline.instant now).reading + d.us < 0 ∨
        (calendarUs : Int) ≤ (Timeline.instant now).reading + d.us) := by
  rw [← check_eq_ok_iff hnow, ← bound_eq_error_iff]
  constructor
  · intro h
    cases hcheck : o.check now with
    | error e' =>
      obtain ⟨fault, rfl, -⟩ := check_eq_error hnow hcheck
      rw [plan, hcheck] at h
      cases h
    | ok =>
      rw [plan_of_check hcheck] at h
      refine ⟨rfl, ?_⟩
      split at h
      · rename_i hbound
        cases h
        exact hbound
      · cases h
      · cases h
  · rintro ⟨hcheck, hbound⟩
    rw [plan_of_check hcheck, hbound]

end ExpirationOptions

/-! ## What is exact about a plan -/

/-- An entry that gets this time to live does not live beyond a bound. -/
structure Duration.StaysWithin [Timeline ι] (ttl : Duration) (start bound : ι) : Prop where
  left : ttl.us ≤ ahead bound start
  /-- Where the entry ends is not beyond the bound, if the calendar has it and the clock is not set
  until then, or is the clock of the bound too. -/
  last : ∀ last, Timeline.add start ttl = .ok last → (Timeline.sameClock start bound ∨
    (Timeline.instant last).offset = (Timeline.instant start).offset) → ahead last bound ≤ 0

namespace ExpirationPlan

variable [Timeline ι]

/-- What limits the life of an entry from some time on: how far its bound lies ahead, and its
window. -/
def limits (plan : ExpirationPlan ι) (now : ι) : List Int :=
  (plan.absolute.map fun bound => ahead bound now).toList ++
    (plan.sliding.map Duration.us).toList

/-- The plan is the one for these options. -/
structure IsExact (plan : ExpirationPlan ι) (o : ExpirationOptions ι) (now : ι) : Prop where
  /-- A relative end goes before an absolute one. -/
  relative : ∀ d ∈ o.relative, ∃ bound, Timeline.add now d = .ok bound ∧ plan.absolute = some bound
  absolute : o.relative = none → plan.absolute = o.absolute
  sliding : plan.sliding = o.sliding
  /-- The time to live is the least of the limits, and there is none if nothing limits the entry. -/
  ttl : plan.ttl.map Duration.us = (plan.limits now).min?
  isPositive : ∀ ttl ∈ plan.ttl, 0 < ttl.us
  /-- So a write never turns into a delete. -/
  writes : ∀ key data, Command.storing key data plan.ttl = .put key data plan.ttl
  /-- A renewal at the same time gives the same time to live. -/
  renewal : ∀ window ∈ plan.sliding, ∃ ttl, plan.ttl = some ttl ∧
    renewalTtl plan.absolute window now = .ok ttl
  /-- No other renewal goes beyond the bound, as long as the offset of the bound is known. -/
  renewals : ∀ window ∈ plan.sliding, ∀ later : ι, isAware later →
    (∀ bound ∈ plan.absolute, isAware bound) →
    ∃ ttl, renewalTtl plan.absolute window later = .ok ttl ∧
      ∀ bound ∈ plan.absolute, ttl.StaysWithin later bound

end ExpirationPlan

/-- The time to live of a renewal, if the bound can be compared. -/
theorem renewalTtl_eq [Timeline ι] {bound : Option ι} {window : Duration} {now : ι}
    (h : ∀ i ∈ bound, Comparable i now) : renewalTtl bound window now =
      .ok (match bound with
        | some i => min window (between i now)
        | none => window) := by
  cases bound with
  | none => rfl
  | some i =>
    rw [renewalTtl, Timeline.since?_eq (h i rfl)]
    rfl

theorem Duration.staysWithin_of_le [Timeline ι] [LawfulTimeline ι] {ttl : Duration}
    {start bound : ι} (h : ttl.us ≤ ahead bound start) : ttl.StaysWithin start bound where
  left := h
  last last hlast hpace := by
    have hcomm := Timeline.ahead_comm (i := bound) (j := start)
    rw [Timeline.ahead_of_add hlast hpace]
    omega

namespace ExpirationOptions

/-- A write never turns into a delete. -/
theorem writeCall_of_plan {o : ExpirationOptions} {now : Instant} {plan : ExpirationPlan}
    {key : Text} {value : Bytes} {call : StoreCall} (hplan : o.plan now = .ok plan)
    (h : Command.writeCall key value o now = .ok call) :
    ∃ data, call = .put key data plan.ttl := by
  obtain ⟨plan', hplan', h⟩ := Chain.bind_eq_ok.1 h
  obtain rfl : plan = plan' := Except.ok.inj (hplan.symm.trans (Chain.mapError_eq_ok.1 hplan'))
  obtain ⟨data, -, ⟨⟩⟩ := Chain.bind_eq_ok.1 h
  exact ⟨data, Command.storing_of_isPositive (isPositive_ttl hplan)⟩

variable [Timeline ι] {o : ExpirationOptions ι} {now : ι} {plan : ExpirationPlan ι}

/-- What is exact about the planning of a write. -/
structure PlansExactly (o : ExpirationOptions ι) (now : ι) : Prop where
  /-- The options are refused if any of the faults is in them, -/
  refused_iff : (∃ fault, o.plan now = .error (.option fault)) ↔
    ∃ fault : OptionFault ι, fault.IsIn o now
  /-- and then for the fault of the first argument that has one. -/
  refused : ∀ fault, o.plan now = .error (.option fault) ↔
    fault.IsIn o now ∧ ∀ other : OptionFault ι, other.IsIn o now → fault.place ≤ other.place
  /-- Otherwise the plan fails only for an end that is counted from now to outside the calendar. -/
  failed : ∀ fault, o.plan now = .error (.time fault) ↔
    (∀ fault : OptionFault ι, ¬ fault.IsIn o now) ∧ fault = .outOfCalendar ∧
      ∃ d, o.relative = some d ∧ ((Timeline.instant now).reading + d.us < 0 ∨
        (calendarUs : Int) ≤ (Timeline.instant now).reading + d.us)
  planned : ∀ plan, o.plan now = .ok plan → plan.IsExact o now
  /-- What lies ahead does so by its value in UTC, unless the clock is the same and was set, -/
  utc : ∀ i j : ι, (Timeline.sameClock i j = false ∨
      (Timeline.instant i).offset = (Timeline.instant j).offset) →
    ahead i j = (Timeline.instant i).utcUs - (Timeline.instant j).utcUs
  /-- and then by what the clock shows. -/
  clock : ∀ i j : ι, Timeline.sameClock i j →
    ahead i j = (Timeline.instant i).reading - (Timeline.instant j).reading

theorem min?_limits (bound : ι) :
    some (o.limit bound now).us =
      ((ExpirationPlan.mk (some (o.limit bound now)) (some bound) o.sliding).limits now).min? := by
  rw [limit]
  cases o.sliding with
  | none => rfl
  | some window =>
    rw [Duration.us_min]
    rfl

variable [LawfulTimeline ι]

/-- Without a bound the window is the only limit. -/
theorem isExact_unbounded (hplan : o.plan now = .ok ⟨o.sliding, none, o.sliding⟩)
    (hbound : o.bound now = .ok none) :
    (ExpirationPlan.mk o.sliding none o.sliding : ExpirationPlan ι).IsExact o now := by
  have hrenewal {later : ι} (window : Duration) : renewalTtl none window later = .ok window := rfl
  rw [bound] at hbound
  exact {
    relative := fun d hd => by
      rw [Option.mem_def.1 hd] at hbound
      obtain ⟨i, -, heq⟩ := Chain.map_eq_ok.1 hbound
      cases heq
    absolute := fun hnone => by
      rw [hnone] at hbound
      exact (Except.ok.inj hbound).symm
    sliding := rfl
    ttl := by cases o.sliding <;> rfl
    isPositive := fun ttl httl => Duration.isPositive_iff.1 (isPositive_ttl hplan ttl httl)
    writes := fun key data => Command.storing_of_isPositive (isPositive_ttl hplan)
    renewal := fun window hwindow => ⟨window, hwindow, hrenewal window⟩
    renewals := fun window hwindow later _ _ => by
      refine ⟨window, hrenewal window, ?_⟩
      intro i hi
      cases hi }

/-- With a bound ahead the time to live ends there at the latest. -/
theorem isExact_bounded {bound : ι}
    (hplan : o.plan now = .ok ⟨some (o.limit bound now), some bound, o.sliding⟩)
    (hbound : o.bound now = .ok (some bound)) :
    (ExpirationPlan.mk (some (o.limit bound now)) (some bound) o.sliding).IsExact o now := by
  obtain ⟨hcomparable, -⟩ := (isPositive_of_plan hplan).2.1 bound rfl
  have hrenewal {later : ι} (hlater : Comparable bound later) (window : Duration) :
      renewalTtl (some bound) window later = .ok (min window (between bound later)) := by
    apply renewalTtl_eq
    rintro i ⟨⟩
    exact hlater
  rw [ExpirationOptions.bound] at hbound
  exact {
    relative := fun d hd => by
      rw [Option.mem_def.1 hd] at hbound
      obtain ⟨i, hi, heq⟩ := Chain.map_eq_ok.1 hbound
      cases heq
      exact ⟨bound, hi, rfl⟩
    absolute := fun hnone => by
      rw [hnone] at hbound
      exact (Except.ok.inj hbound).symm
    sliding := rfl
    ttl := min?_limits bound
    isPositive := fun ttl httl => Duration.isPositive_iff.1 (isPositive_ttl hplan ttl httl)
    writes := fun key data => Command.storing_of_isPositive (isPositive_ttl hplan)
    renewal := fun window hwindow => by
      have hwindow : o.sliding = some window := hwindow
      refine ⟨o.limit bound now, rfl, ?_⟩
      rw [hrenewal hcomparable, Duration.min_comm, limit, hwindow]
    renewals := fun window _ later hlater haware => by
      have hlater : Comparable bound later :=
        Timeline.comparable_of_isAware (haware bound rfl) hlater
      refine ⟨_, hrenewal hlater window, ?_⟩
      rintro i ⟨⟩
      apply Duration.staysWithin_of_le
      rw [Duration.us_min]
      exact Int.min_le_right _ _ }

/-- **Plans that are made are exact.** -/
theorem isExact_of_plan (h : o.plan now = .ok plan) : plan.IsExact o now := by
  obtain ⟨⟨⟩, hcheck, -⟩ := Chain.bind_eq_ok.1 h
  have hplan := h
  rw [plan_of_check hcheck] at h
  split at h
  · cases h
  · rename_i hbound
    cases h
    exact isExact_unbounded hplan hbound
  · rename_i bound hbound
    cases h
    exact isExact_bounded hplan hbound

/-- **Plans and renewals agree and are exact.** -/
theorem exact_of_aware (o : ExpirationOptions ι) (hnow : isAware now) : o.PlansExactly now where
  refused_iff := by
    constructor
    · rintro ⟨fault, h⟩
      exact ⟨fault, ((plan_eq_option_iff hnow).1 h).1⟩
    · rintro ⟨fault, hin⟩
      cases hcheck : o.check now with
      | ok => exact absurd hin ((check_eq_ok_iff hnow).1 hcheck fault)
      | error e =>
        obtain ⟨first, -, hfirst⟩ := check_eq_error hnow hcheck
        exact ⟨first, (plan_eq_option_iff hnow).2 hfirst⟩
  refused _ := plan_eq_option_iff hnow
  failed _ := plan_eq_time_iff hnow
  planned _ := isExact_of_plan
  utc _ _ h := h.elim Timeline.ahead_of_not_sameClock Timeline.ahead_of_offset
  clock _ _ := Timeline.ahead_of_sameClock

end ExpirationOptions

/-! ## A clock that is set -/

/-- Two places. In one the clock always shows UTC. In the other it is an hour ahead, and two hours
in the summer of 2026: it is set from two to three on March 29 and back to two on October 25. -/
inductive Place where
  | greenwich
  | berlin
  deriving DecidableEq

namespace Place

/-- A reading of the year 2026. -/
def reading (month day hour minute : Nat) : Nat :=
  Date.dayNumber ⟨2026, month, day⟩ * usPerDay + (hour * 60 + minute) * 60 * usPerSecond

/-- Whether it is summer when a clock shows this. What it skips in spring is not yet summer, and
what it shows twice in autumn is summer for the first time. -/
def isSummer (shown : Nat) (again : Bool) : Bool :=
  let first := if again then shown else shown - 3600000000
  reading 3 29 2 0 ≤ first ∧ first < reading 10 25 2 0

instance : Clocks Place where
  offset?
    | greenwich, _, _ => some .utc
    | berlin, shown, again => Offset.ofMicroseconds?
      (if isSummer shown again then 7200000000 else 3600000000)
  name
    | greenwich => "zoneinfo.ZoneInfo(key='Etc/UTC')"
    | berlin => "zoneinfo.ZoneInfo(key='Europe/Berlin')"

/-- Half past one, before the clock is set forward. -/
def beforeSpring : Zoned Place := ⟨reading 3 29 1 30, some berlin, false, by decide⟩

/-- Half past three, an hour later. -/
def afterSpring : Zoned Place := ⟨reading 3 29 3 30, some berlin, false, by decide⟩

/-- A quarter to three, before the clock is set back. -/
def beforeAutumn : Zoned Place := ⟨reading 10 25 2 45, some berlin, false, by decide⟩

/-- Half past two, three quarters of an hour later. -/
def afterAutumn : Zoned Place := ⟨reading 10 25 2 30, some berlin, true, by decide⟩

/-- A quarter to two in UTC, an hour later than `beforeAutumn`. -/
def autumnInUtc : Zoned Place := ⟨reading 10 25 1 45, some greenwich, false, by decide⟩

end Place

namespace ExpirationOptions

open Place

/-- An absolute end, one two hours from now that goes before it, and a window of three. -/
def overridden (absolute : ι) : ExpirationOptions ι where
  absolute := some absolute
  relative := some ⟨7200000000, by decide⟩
  sliding := some ⟨10800000000, by decide⟩

/-- The last second of the calendar. -/
def lastSecond : Instant := ⟨calendarUs - 1000000, some .utc, by decide⟩

/-- The last hour of the calendar, five hours to the east. -/
def lastHour : Instant := ⟨calendarUs - 3600000000, some ⟨18000000000, by decide⟩, by decide⟩

theorem exact_overridden :
    (isAware (default : Instant) ∧ ∃ plan, (overridden lastSecond).plan default = .ok plan ∧
      plan.IsExact (overridden lastSecond) default) ∧
    isAware beforeSpring ∧ ∃ plan, (overridden afterSpring).plan beforeSpring = .ok plan ∧
      plan.IsExact (overridden afterSpring) beforeSpring := by
  have hinstants : ((overridden lastSecond).plan default).toOption.isSome := by decide
  have hclock : ((overridden afterSpring).plan beforeSpring).toOption.isSome := by decide
  obtain ⟨plan, hplan⟩ := Option.isSome_iff_exists.1 hinstants
  obtain ⟨plan', hplan'⟩ := Option.isSome_iff_exists.1 hclock
  have hplan := Chain.eq_ok_of_toOption hplan
  have hplan' := Chain.eq_ok_of_toOption hplan'
  have hnow : isAware (default : Instant) := rfl
  have hnow' : isAware beforeSpring := by decide
  exact ⟨⟨rfl, plan, hplan, (exact_of_aware _ hnow).planned plan hplan⟩,
    hnow', plan', hplan', (exact_of_aware _ hnow').planned plan' hplan'⟩

/-- An absolute end. -/
def endingAt (absolute : ι) : ExpirationOptions ι where
  absolute := some absolute

/-- **Plans by a clock that is set are not exact by UTC.** An end an hour ahead gets two hours, and
one three quarters of an hour ahead is refused as past. Where the clock of a renewal is set, the
time to live up to a bound on another clock leads past it. And it may lead out of the calendar. -/
theorem inexact_summer :
    ((endingAt afterSpring).plan beforeSpring =
        .ok ⟨some ⟨7200000000, by decide⟩, some afterSpring, none⟩ ∧
      afterSpring.instant.utcUs - beforeSpring.instant.utcUs = 3600000000) ∧
    ((endingAt afterAutumn).plan beforeAutumn = .error (.option (.absolutePast afterAutumn)) ∧
      beforeAutumn.instant.utcUs < afterAutumn.instant.utcUs) ∧
    (∃ ttl last, renewalTtl (some autumnInUtc) ⟨36000000000, by decide⟩ beforeAutumn = .ok ttl ∧
      Timeline.add beforeAutumn ttl = .ok last ∧ Timeline.le? last autumnInUtc = .ok false) ∧
    ∃ ttl, renewalTtl (some lastSecond) ⟨36000000000, by decide⟩ lastHour = .ok ttl ∧
      lastHour.add ttl = .error .outOfCalendar := by
  refine ⟨⟨Chain.eq_ok_of_toOption (by decide), by decide⟩, ⟨by rfl, by decide⟩, ?_, ?_⟩
  · exact ⟨⟨3600000000, by decide⟩, ⟨Place.reading 10 25 3 45, some berlin, false, by decide⟩,
      Chain.eq_ok_of_toOption (by decide), Chain.eq_ok_of_toOption (by decide),
      Chain.eq_ok_of_toOption (by decide)⟩
  · exact ⟨⟨21599000000, by decide⟩, Chain.eq_ok_of_toOption (by decide),
      Instant.add_eq_error_iff.2 ⟨rfl, .inr (by decide)⟩⟩

end ExpirationOptions

end SlidingCache
