import OrderDesk.Metrics.Exposition

/-! # Histograms of durations

Durations are counted in buckets by their upper bounds, from 100 µs to 10 s; a bucket counts
every duration up to its bound. -/

namespace OrderDesk

/-- The upper bounds of the buckets in nanoseconds, and their texts in seconds. -/
def latencyBuckets : List (Nat × String) := [
  (100000, "0.0001"), (500000, "0.0005"), (1000000, "0.001"), (2500000, "0.0025"),
  (5000000, "0.005"), (10000000, "0.01"), (25000000, "0.025"), (50000000, "0.05"),
  (100000000, "0.1"), (250000000, "0.25"), (500000000, "0.5"), (1000000000, "1"),
  (2500000000, "2.5"), (5000000000, "5"), (10000000000, "10")]

structure Histogram where
  count : Nat
  /-- How many durations each of the buckets holds. -/
  buckets : List Nat
  deriving DecidableEq, Repr

namespace Histogram

def empty : Histogram := ⟨0, latencyBuckets.map fun _ => 0⟩

def observe (nanos : Nat) (h : Histogram) : Histogram where
  count := h.count + 1
  buckets := List.zipWith (fun (bound, _) n => if nanos ≤ bound then n + 1 else n)
    latencyBuckets h.buckets

/-- The series of a histogram: one for each bucket, one for all. -/
def series (labels : List (String × String)) (h : Histogram) : List Metrics.Series :=
  List.zipWith (fun (_, bound) n =>
      { suffix := "_bucket", labels := labels ++ [("le", bound)], value := toString n })
    latencyBuckets h.buckets ++
  [{ suffix := "_bucket", labels := labels ++ [("le", "+Inf")], value := toString h.count },
   { suffix := "_count", labels, value := toString h.count }]

/-- What is shown of a histogram without buckets. -/
def countOnly (labels : List (String × String)) (h : Histogram) : List Metrics.Series :=
  [{ suffix := "_count", labels, value := toString h.count }]

end Histogram

end OrderDesk
