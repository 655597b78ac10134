import SlidingCache.Expiration
import SlidingCache.Proofs.Time.Timeline

/-!
# What a plan promises

Of a plan that is not refused, the bound lies ahead, and the time to live and the window are
positive (`ExpirationOptions.isPositive_of_plan`). A plan that is made with aware instants has a
bound that names a point of time (`ExpirationOptions.plan_spec`).
-/

namespace SlidingCache

open Timeline (Comparable ahead between isAware)

theorem Duration.isPositive_min {a b : Duration} (ha : a.isPositive) (hb : b.isPositive) :
    (min a b).isPositive := by
  rw [isPositive_iff] at *
  rw [us_min]
  omega

theorem Duration.min_comm (a b : Duration) : min a b = min b a := by
  rcases a with ⟨a, ha⟩
  rcases b with ⟨b, hb⟩
  show (if b < a then _ else _) = if a < b then _ else _
  split <;> split <;> first | rfl | (congr 1; omega)

namespace ExpirationOptions

variable {ι : Type} {o : ExpirationOptions ι} {now : ι} {plan : ExpirationPlan ι}

theorem checkRelative_eq_ok (h : o.checkRelative = .ok ()) : ∀ d ∈ o.relative, d.isPositive := by
  intro d hd
  rw [Option.mem_def] at hd
  simp only [checkRelative, hd] at h
  split at h
  · assumption
  · cases h

theorem checkSliding_eq_ok (h : o.checkSliding = .ok ()) : ∀ d ∈ o.sliding, d.isPositive := by
  intro d hd
  rw [Option.mem_def] at hd
  simp only [checkSliding, hd] at h
  split at h
  · assumption
  · cases h

variable [Timeline ι]

theorem checkAbsolute_eq_ok (h : o.checkAbsolute now = .ok ()) :
    ∀ i ∈ o.absolute, isAware i ∧ Comparable i now ∧ 0 < ahead i now := by
  intro i hi
  rw [Option.mem_def] at hi
  rw [checkAbsolute, hi] at h
  dsimp only at h
  cases haware : isAware i with
  | false =>
    rw [haware] at h
    cases h
  | true =>
    rw [haware] at h
    cases hle : Timeline.le? i now with
    | error e =>
      rw [hle] at h
      cases h
    | ok past =>
      have hcomparable := Timeline.comparable_of_le? hle
      refine ⟨rfl, hcomparable, Int.not_le.1 fun hpast => ?_⟩
      rw [Timeline.le?_eq hcomparable, decide_eq_true hpast] at h
      cases h

/-- The time to live up to a bound that lies ahead. -/
theorem ttlTo_eq {bound : ι} {sliding : Option Duration} (hcomparable : Comparable bound now)
    (hahead : 0 < ahead bound now) :
    ttlTo bound sliding now = .ok (match sliding with
      | some window => min (between bound now) window
      | none => between bound now) := by
  have hleft : (between bound now).isPositive := Duration.isPositive_iff.2 hahead
  rw [ttlTo, Timeline.since?_eq hcomparable]
  simp only [Chain.ok_bind, hleft, Bool.not_true, Bool.false_eq_true, if_false]
  rfl

theorem ttlTo_eq_ok {bound : ι} {sliding : Option Duration} {ttl : Duration}
    (hcomparable : Comparable bound now) (hahead : 0 < ahead bound now)
    (hsliding : ∀ d ∈ sliding, d.isPositive) (h : ttlTo bound sliding now = .ok ttl) :
    ttl.isPositive := by
  have hleft : (between bound now).isPositive := Duration.isPositive_iff.2 hahead
  rw [ttlTo_eq hcomparable hahead] at h
  cases h
  split
  · rename_i d
    exact Duration.isPositive_min hleft (hsliding d rfl)
  · exact hleft

variable [LawfulTimeline ι]

/-- The bound of checked options lies ahead. -/
theorem bound_eq_ok {bound : Option ι} (hcheck : o.check now = .ok ())
    (h : o.bound now = .ok bound) : ∀ i ∈ bound, Comparable i now ∧ 0 < ahead i now := by
  obtain ⟨⟨⟩, habsolute, hcheck⟩ := Chain.bind_eq_ok.1 hcheck
  obtain ⟨⟨⟩, hrelative, -⟩ := Chain.bind_eq_ok.1 hcheck
  rw [ExpirationOptions.bound] at h
  split at h
  · rename_i d hd
    obtain ⟨i, hi, rfl⟩ := Chain.map_eq_ok.1 h
    intro i hi
    cases hi
    have hpos := Duration.isPositive_iff.1 (checkRelative_eq_ok hrelative d hd)
    exact ⟨Timeline.comparable_add hi, by rw [Timeline.ahead_add hi]; exact hpos⟩
  · cases h
    intro i hi
    exact (checkAbsolute_eq_ok habsolute i hi).2

/-- **What a plan promises.** -/
theorem isPositive_of_plan (h : o.plan now = .ok plan) :
    (∀ ttl ∈ plan.ttl, ttl.isPositive) ∧
      (∀ i ∈ plan.absolute, Comparable i now ∧ 0 < ahead i now) ∧
        ∀ window ∈ plan.sliding, window.isPositive := by
  obtain ⟨⟨⟩, hcheck, h⟩ := Chain.bind_eq_ok.1 h
  obtain ⟨bound, hbound, h⟩ := Chain.bind_eq_ok.1 h
  have hahead := bound_eq_ok hcheck (Chain.mapError_eq_ok.1 hbound)
  obtain ⟨⟨⟩, -, hcheck⟩ := Chain.bind_eq_ok.1 hcheck
  obtain ⟨⟨⟩, -, hsliding⟩ := Chain.bind_eq_ok.1 hcheck
  have hsliding := checkSliding_eq_ok hsliding
  cases bound with
  | none =>
    cases h
    exact ⟨hsliding, hahead, hsliding⟩
  | some bound =>
    obtain ⟨ttl, httl, h⟩ := Chain.bind_eq_ok.1 h
    cases h
    refine ⟨?_, hahead, hsliding⟩
    intro d hd
    cases hd
    obtain ⟨hcomparable, hbefore⟩ := hahead bound rfl
    exact ttlTo_eq_ok hcomparable hbefore hsliding (Chain.mapError_eq_ok.1 httl)

/-- A plan never has a time to live that is over, whatever clock it was made by. -/
theorem isPositive_ttl (h : o.plan now = .ok plan) : ∀ ttl ∈ plan.ttl, ttl.isPositive :=
  (isPositive_of_plan h).1

end ExpirationOptions

/-- What a plan promises that is made with instants. -/
theorem ExpirationOptions.plan_spec {o : ExpirationOptions} {now : Instant} {plan : ExpirationPlan}
    (haware : now.isAware) (h : o.plan now = .ok plan) :
    (∀ ttl ∈ plan.ttl, ttl.isPositive) ∧
      (∀ i ∈ plan.absolute, i.isAware ∧ now.utcUs < i.utcUs) ∧
        ∀ window ∈ plan.sliding, window.isPositive := by
  obtain ⟨httl, habsolute, hsliding⟩ := isPositive_of_plan h
  refine ⟨httl, fun i hi => ?_, hsliding⟩
  obtain ⟨hcomparable, hahead⟩ := habsolute i hi
  exact ⟨Eq.trans hcomparable haware, Int.lt_of_sub_pos hahead⟩

end SlidingCache
