import OrderDesk.Cache.OrderCache

/-! # A cache of orders over a bounded map

The map under the alternative backend comes from elsewhere: it may let entries go, early or late,
and tells a listener why. Here it is a parameter (`BoundedMap`), and `MapOrderCache` is the cache
over it. Over a plain map that lets nothing go (`BoundedMap.plain`) this is `MokaOrderCache`. -/

namespace OrderDesk

/-- Why a map let an entry go. -/
inductive RemovalCause where
  | expired
  | explicit
  | replaced
  | size
  deriving DecidableEq, Repr

/-- The reason under which a removal counts as an eviction; a replaced entry is none. -/
def RemovalCause.reason? : RemovalCause → Option String
  | .expired => some "idle"
  | .size => some "capacity"
  | .explicit => some "manual"
  | .replaced => none

/-- A map of orders whose states are `σ`. Each call also tells which removals the listener heard
of meanwhile. -/
structure BoundedMap (σ : Type) where
  new (capacity : Nat) : σ
  get (s : σ) (uid : String) : Option Order × List RemovalCause × σ
  insert (s : σ) (uid : String) (o : Order) : List RemovalCause × σ
  /-- The number of entries, as far as the map has counted them. -/
  count (s : σ) : Nat

/-- The listener counts the evictions. -/
def CacheMetrics.recordRemovals (causes : List RemovalCause) (m : CacheMetrics) : CacheMetrics :=
  (causes.filterMap (·.reason?)).foldl (fun m reason => m.recordEviction reason) m

structure MapOrderCache (σ : Type) where
  entries : σ
  metrics : CacheMetrics

namespace MapOrderCache

variable {σ : Type} (B : BoundedMap σ)

def new? (capacity : Nat) : Except CacheError (MapOrderCache σ) :=
  if capacity = 0 then .error .zeroCapacity
  else .ok { entries := B.new capacity, metrics := { backend := "moka" } }

def get (c : MapOrderCache σ) (uid : String) : Option Order × MapOrderCache σ :=
  let (order?, causes, entries) := B.get c.entries uid
  let metrics := c.metrics.recordRemovals causes
  let metrics := if order?.isSome then metrics.recordHit else metrics.recordMiss
  (order?, { entries, metrics := metrics.recordDuration "get" 0 })

def set (c : MapOrderCache σ) (o : Order) : MapOrderCache σ :=
  let (causes, entries) := B.insert c.entries o.uid o
  let metrics := (c.metrics.recordRemovals causes).recordDuration "set" 0
  { entries, metrics := metrics.updateEntries (B.count entries) }

end MapOrderCache

/-- A map that never lets an entry go, and counts its entries only when told to. -/
def BoundedMap.plain : BoundedMap (Std.HashMap String Order × Nat) where
  new _ := (∅, 0)
  get s uid := (s.1[uid]?, [], s)
  insert s uid o := (if s.1.contains uid then [.replaced] else [], s.1.insert uid o, s.2)
  count s := s.2

namespace MokaOrderCache

/-- The same cache, seen as one over a plain map. -/
def overMap (c : MokaOrderCache) : MapOrderCache (Std.HashMap String Order × Nat) :=
  { entries := (c.entries, c.counted), metrics := c.metrics }

theorem overMap_new? (capacity : Nat) :
    (new? capacity).map overMap = MapOrderCache.new? .plain capacity := by
  unfold new? MapOrderCache.new?
  split <;> rfl

theorem overMap_get (c : MokaOrderCache) (uid : String) :
    MapOrderCache.get .plain c.overMap uid = ((c.get uid).1, (c.get uid).2.overMap) := rfl

theorem overMap_set (c : MokaOrderCache) (o : Order) :
    MapOrderCache.set .plain c.overMap o = (c.set o).overMap := by
  have hlistener : ∀ b : Bool,
      c.metrics.recordRemovals (if b then [.replaced] else []) = c.metrics := by
    intro b
    cases b <;> rfl
  have hset := hlistener (c.entries.contains o.uid)
  simp only [MapOrderCache.set, BoundedMap.plain, overMap, set, hset]

end MokaOrderCache

end OrderDesk
