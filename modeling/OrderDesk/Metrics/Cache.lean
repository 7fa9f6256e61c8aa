import OrderDesk.Metrics.Histogram

/-! # Cache metrics

Hits, misses and evictions of one cache, the number of its entries when last told, and how
long its operations took. -/

namespace OrderDesk

structure CacheMetrics where
  /-- The kind of cache, which labels every series. -/
  backend : String
  hits : Nat := 0
  misses : Nat := 0
  evicted : Tally String := []
  entries : Option Nat := none
  durations : List (String × Histogram) := []
  deriving DecidableEq, Repr

namespace CacheMetrics

def recordHit (m : CacheMetrics) : CacheMetrics := { m with hits := m.hits + 1 }

def recordMiss (m : CacheMetrics) : CacheMetrics := { m with misses := m.misses + 1 }

def recordEviction (reason : String) (m : CacheMetrics) : CacheMetrics :=
  { m with evicted := m.evicted.bump reason }

def updateEntries (n : Nat) (m : CacheMetrics) : CacheMetrics := { m with entries := some n }

/-- Adds a duration to the histogram of an operation. -/
def observe (operation : String) (nanos : Nat) :
    List (String × Histogram) → List (String × Histogram)
  | [] => [(operation, Histogram.empty.observe nanos)]
  | (o, h) :: hs => if o == operation then (o, h.observe nanos) :: hs
    else (o, h) :: observe operation nanos hs

def recordDuration (operation : String) (nanos : Nat) (m : CacheMetrics) : CacheMetrics :=
  { m with durations := observe operation nanos m.durations }

def evictions (m : CacheMetrics) : Nat := (m.evicted.map (·.2)).foldr (· + ·) 0

/-- The share of reads that hit, `0` before the first read. -/
def hitRate (m : CacheMetrics) : Float :=
  if m.hits + m.misses = 0 then 0 else .ofNat m.hits / .ofNat (m.hits + m.misses)

/-- A counter has no series before it counts. -/
def counter (labels : List (String × String)) (n : Nat) : List Metrics.Series :=
  if n = 0 then [] else [{ labels, value := toString n }]

/-- The families of the cache; `shape` gives the series of a histogram. -/
def families (m : CacheMetrics)
    (shape : List (String × String) → Histogram → List Metrics.Series := Histogram.countOnly)
    (kind : Metrics.Kind := .summary) : List Metrics.Family :=
  let backend := [("backend", m.backend)]
  [{ name := "orderflow_cache_hits_total"
     description := "Total number of order cache hits"
     kind := .counter
     series := counter backend m.hits },
   { name := "orderflow_cache_misses_total"
     description := "Total number of order cache misses"
     kind := .counter
     series := counter backend m.misses },
   { name := "orderflow_cache_evictions_total"
     description := "Total number of order cache evictions"
     kind := .counter
     series := m.evicted.map fun (reason, n) =>
       { labels := backend ++ [("reason", reason)], value := toString n } },
   { name := "orderflow_cache_entries"
     description := "Current number of orders in cache"
     kind := .gauge
     series := m.entries.toList.map fun n => { labels := backend, value := Metrics.gaugeText n } },
   { name := "orderflow_cache_operation_seconds"
     description := "Time spent on order cache operations"
     kind
     series := m.durations.flatMap fun (operation, h) =>
       shape (backend ++ [("operation", operation)]) h }]

end CacheMetrics

end OrderDesk
