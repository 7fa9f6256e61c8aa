import OrderDesk.Cache.Lru
import OrderDesk.Metrics.Cache
import OrderDesk.Order.Error

/-! # Caches of orders

The caches that stand in front of the store, and their metrics. Operations take no time on the
virtual clock, so every recorded duration is zero.

* `LruOrderCache`: keeps the most recently used orders, strictly;
* `MokaOrderCache`: an exact map as long as it is not overfilled, which counts its entries
  only when told to;
* `FaultyCache`: takes a number of orders and then fails, for trying out failures;
* `OrderCache`: any of them, and `OrderCache.build` from the settings. -/

namespace OrderDesk

/-! ## Least recently used -/

structure LruOrderCache where
  cache : LruCache String Order
  metrics : CacheMetrics

namespace LruOrderCache

def new? (capacity : Nat) : Except CacheError LruOrderCache := do
  pure { cache := ← LruCache.new? capacity, metrics := { backend := "lru" } }

def get (c : LruOrderCache) (uid : String) : Except OrderError (Option Order) × LruOrderCache :=
  match c.cache.get uid with
  | .error e => (.error (.cache e.text), c)
  | .ok (order?, cache) =>
    let metrics := if order?.isSome then c.metrics.recordHit else c.metrics.recordMiss
    (.ok order?, { cache, metrics := metrics.recordDuration "get" 0 })

def set (c : LruOrderCache) (o : Order) : Except OrderError Unit × LruOrderCache :=
  match c.cache.set o.uid o with
  | .error e => (.error (.cache e.text), c)
  | .ok (evicted, cache) =>
    let metrics := if evicted.isSome then c.metrics.recordEviction "capacity" else c.metrics
    (.ok (), { cache, metrics := (metrics.recordDuration "set" 0).updateEntries cache.size })

def size (c : LruOrderCache) : Nat := c.cache.size

def keys (c : LruOrderCache) : List String := c.cache.keys

end LruOrderCache

/-! ## The alternative backend -/

structure MokaOrderCache where
  entries : Std.HashMap String Order
  /-- The number of entries when they were last counted. -/
  counted : Nat
  metrics : CacheMetrics

namespace MokaOrderCache

def new? (capacity : Nat) : Except CacheError MokaOrderCache :=
  if capacity = 0 then .error .zeroCapacity
  else .ok { entries := ∅, counted := 0, metrics := { backend := "moka" } }

def get (c : MokaOrderCache) (uid : String) : Option Order × MokaOrderCache :=
  let order? := c.entries[uid]?
  let metrics := if order?.isSome then c.metrics.recordHit else c.metrics.recordMiss
  (order?, { c with metrics := metrics.recordDuration "get" 0 })

def set (c : MokaOrderCache) (o : Order) : MokaOrderCache :=
  { c with
    entries := c.entries.insert o.uid o
    metrics := (c.metrics.recordDuration "set" 0).updateEntries c.counted }

/-- Takes an order out; one that was there counts as evicted by hand. -/
def invalidate (c : MokaOrderCache) (uid : String) : MokaOrderCache :=
  { c with
    entries := c.entries.erase uid
    metrics := if c.entries.contains uid then c.metrics.recordEviction "manual" else c.metrics }

def text (c : MokaOrderCache) : String :=
  "MokaOrderCache \x7b entry_count: " ++ toString c.counted ++ " \x7d"

/-- Counts the entries. -/
def sync (c : MokaOrderCache) : MokaOrderCache := { c with counted := c.entries.size }

end MokaOrderCache

/-! ## A cache that fails -/

structure FaultyCache where
  /-- How many more orders it takes. -/
  accept : Nat
  getFails : Bool
  deriving DecidableEq, Repr

namespace FaultyCache

def unavailable : OrderError := .cache "backend unavailable"

def get (c : FaultyCache) : Except OrderError (Option Order) :=
  if c.getFails then .error unavailable else .ok none

def set (c : FaultyCache) : Except OrderError Unit × FaultyCache :=
  match c.accept with
  | 0 => (.error unavailable, c)
  | n + 1 => (.ok (), { c with accept := n })

end FaultyCache

/-! ## Any cache -/

inductive CacheBackend where
  | lru
  | moka
  deriving DecidableEq, Repr

def CacheBackend.name : CacheBackend → String
  | .lru => "lru"
  | .moka => "moka"

inductive OrderCache where
  | lru (cache : LruOrderCache)
  | moka (cache : MokaOrderCache)
  | faulty (cache : FaultyCache)

namespace OrderCache

def build (backend : CacheBackend) (capacity : Nat) : Except CacheError OrderCache :=
  match backend with
  | .lru => (LruOrderCache.new? capacity).map .lru
  | .moka => (MokaOrderCache.new? capacity).map .moka

def name : OrderCache → String
  | .lru _ => CacheBackend.lru.name
  | .moka _ => CacheBackend.moka.name
  | .faulty _ => "flaky"

/-- Looks an order up; a hit counts as a use. -/
def get (uid : String) : OrderCache → Except OrderError (Option Order) × OrderCache
  | .lru c => let (r, c) := c.get uid; (r, .lru c)
  | .moka c => let (r, c) := c.get uid; (.ok r, .moka c)
  | .faulty c => (c.get, .faulty c)

def set (o : Order) : OrderCache → Except OrderError Unit × OrderCache
  | .lru c => let (r, c) := c.set o; (r, .lru c)
  | .moka c => (.ok (), .moka (c.set o))
  | .faulty c => let (r, c) := c.set; (r, .faulty c)

/-- How many keys are known to be held. -/
def size : OrderCache → Nat
  | .lru c => c.size
  | .moka c => c.counted
  | .faulty _ => 0

def sync : OrderCache → OrderCache
  | .moka c => .moka c.sync
  | c => c

def metrics? : OrderCache → Option CacheMetrics
  | .lru c => some c.metrics
  | .moka c => some c.metrics
  | .faulty _ => none

def families (c : OrderCache) : List Metrics.Family :=
  match c.metrics? with
  | some m => m.families
  | none => []

end OrderCache

end OrderDesk
