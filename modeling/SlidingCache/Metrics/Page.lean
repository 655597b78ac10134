import SlidingCache.Number.Notation
import SlidingCache.Number.Signed
import SlidingCache.Table
import SlidingCache.Text.Basic

/-!
# The page of metrics

What has been counted and measured as a page in the Prometheus exposition format: for each metric a
line of help, a line with its type and its samples, those of a metric with labels in the order in
which the labels came up. Times of operations are put into buckets, and each bucket is shown with
all that lie below it.

Numbers are written as decimals with a point, from a million on with an exponent.
-/

namespace SlidingCache

/-- A sum of times, which may leave the numbers there are. -/
inductive Total where
  | finite (n : Signed)
  | infinite (negative : Bool)
  | undefined
  deriving DecidableEq

namespace Total

def add : Total → Signed → Total
  | finite a, b => match a.add? b with
    | some n => finite n
    | none => infinite b.negative
  | t, _ => t

/-- Below a million all digits are written, and beyond `10 ^ 16` a number has an exponent anyway. -/
def plain : DecimalNotation := ⟨-4, 16, 2⟩

/-- A positive number from a million on: one digit before the point, and the exponent. -/
def large (d : Binary64.Decimal) : Text :=
  let digits := Text.ofNat d.digits
  digits.take 1 ++ (if digits.length ≤ 1 then [] else ("." : Text) ++ digits.drop 1)
    ++ ("e+0" : Text) ++ Text.ofInt d.scale

def toText : Total → Text
  | finite ⟨negative, b⟩ =>
    let d := b.shortest
    if !negative ∧ 6 ≤ d.scale ∧ d.scale < plain.limit then large d
    else (if negative then ("-" : Text) else []) ++ d.write plain
  | infinite negative => if negative then "-Inf" else "+Inf"
  | undefined => "NaN"

def ofNat (n : Nat) : Total := match Binary64.nearest? n 1 with
  | some b => finite ⟨false, b⟩
  | none => infinite false

end Total

/-! ## Measuring -/

/-- How many times fell into each bucket, and their sum. -/
structure Histogram where
  /-- One for each bound and one for the times beyond all of them. -/
  buckets : List Nat
  sum : Total := .finite .zero
  deriving DecidableEq

namespace Histogram

/-- The upper bounds of the buckets in seconds, given as numerator and denominator. -/
def bounds : List Signed :=
  ([(1, 2000), (1, 1000), (1, 200), (1, 100), (1, 40), (1, 20), (1, 10), (1, 4), (1, 2), (1, 1)] :
    List (Nat × Nat)).map fun (num, den) => ⟨false, (Binary64.nearest? num den).getD .zero⟩

def empty : Histogram := ⟨List.replicate (bounds.length + 1) 0, .finite .zero⟩

/-- Puts a time into the first bucket whose bound it does not pass. -/
def observe (h : Histogram) (seconds : Signed) : Histogram :=
  let i := (bounds.findIdx? (seconds.le ·)).getD bounds.length
  ⟨h.buckets.modify i (· + 1), h.sum.add seconds⟩

/-- What lies in a bucket or below it, for each bucket. -/
def running (below : Nat) : List Nat → List Nat
  | [] => []
  | n :: rest => (below + n) :: running (below + n) rest

end Histogram

structure Metrics where
  hits : Nat := 0
  misses : Nat := 0
  expired : Nat := 0
  renewals : Table Text Nat := []
  times : Table Text Histogram := []
  deriving Inhabited

/-- Something to be counted or measured. -/
inductive Measurement where
  | hit
  | miss
  | expired
  | renewal (outcome : Text)
  | operation (name : Text) (seconds : Signed)

namespace Metrics

def record (m : Metrics) : Measurement → Metrics
  | .hit => { m with hits := m.hits + 1 }
  | .miss => { m with misses := m.misses + 1 }
  | .expired => { m with expired := m.expired + 1 }
  | .renewal outcome =>
    { m with renewals := m.renewals.put outcome ((m.renewals.get? outcome).getD 0 + 1) }
  | .operation name seconds =>
    { m with times := m.times.put name (((m.times.get? name).getD .empty).observe seconds) }

/-! ## The page -/

/-- A label's value between its quotes. -/
def escapedLabel (t : Text) : Text :=
  t.flatMap fun c =>
    if c = CodePoint.ofChar '\\' then ("\\\\" : Text)
    else if c = CodePoint.ofChar '"' then "\\\""
    else if c = CodePoint.ofChar '\n' then "\\n"
    else [c]

/-- One line: a name, its labels in braces if it has any, and a number. -/
def sample (name : Text) (labels : List (Text × Text)) (value : Total) : Text :=
  let label (l : Text × Text) : Text := l.1 ++ ("=\"" : Text) ++ escapedLabel l.2 ++ ("\"" : Text)
  name ++ (if labels.isEmpty then []
      else ("\x7b" : Text) ++ Text.join "," (labels.map label) ++ ("\x7d" : Text))
    ++ (" " : Text) ++ value.toText ++ ("\n" : Text)

/-- The lines of help and type, and the samples. -/
def family (name help kind : Text) (samples : List Text) : Text :=
  ("# HELP " : Text) ++ name ++ (" " : Text) ++ help ++ ("\n# TYPE " : Text) ++ name ++ (" " : Text)
    ++ kind ++ ("\n" : Text) ++ samples.flatten

def counter (name help : Text) (n : Nat) : Text :=
  family name help "counter" [sample name [] (.ofNat n)]

def histogramSamples (name : Text) : Text × Histogram → List Text
  | (operation, h) =>
    let counts := Histogram.running 0 h.buckets
    let ends := Histogram.bounds.map Total.finite ++ [.infinite false]
    let own : Text × Text := ("operation", operation)
    let bucket : Total × Nat → Text := fun (bound, n) =>
      sample (name ++ ("_bucket" : Text)) [("le", bound.toText), own] (.ofNat n)
    (ends.zip counts).map bucket
      ++ [sample (name ++ ("_count" : Text)) [own] (.ofNat (counts.getLastD 0)),
        sample (name ++ ("_sum" : Text)) [own] h.sum]

def renewalsName : Text := "revcache_renewals_total"

def timesName : Text := "revcache_operation_duration_seconds"

def toText (m : Metrics) : Text :=
  counter "revcache_hits_total" "Cache reads that found a live entry" m.hits
    ++ counter "revcache_misses_total" "Cache reads that found no live entry" m.misses
    ++ counter "revcache_expired_total" "Entries deleted on read after their absolute expiration"
      m.expired
    ++ family renewalsName "Sliding expiration renewals" "counter"
      (m.renewals.map fun (outcome, n) => sample renewalsName [("outcome", outcome)] (.ofNat n))
    ++ family timesName "Cache operation latency in seconds" "histogram"
      (m.times.flatMap (histogramSamples timesName))

end Metrics

/-- Metrics that are made when something is first recorded, if they are wanted and can be had. -/
structure Registry where
  enabled : Bool := true
  /-- Whether there is something to count with. -/
  available : Bool := true
  metrics : Option Metrics := none

namespace Registry

/-- The registry with its metrics made. -/
def ready (r : Registry) : Registry :=
  if r.enabled && r.available then { r with metrics := r.metrics <|> some {} } else r

def record (r : Registry) (m : Measurement) : Registry :=
  { r.ready with metrics := r.ready.metrics.map (·.record m) }

def page (r : Registry) : Text := match r.metrics with
  | some m => m.toText
  | none => "# Metrics disabled\n"

end Registry

end SlidingCache
