import Mathlib.Data.Finmap
import OrderDesk.Cache.BoundedMap
import OrderDesk.Proofs.Cache.Entries

/-!
# The backends agree as long as nothing is driven out

The one backend keeps what was used recently, the other one a map from elsewhere. Of that map only
this is relied on: within its capacity it is an exact map and drops nothing (`BoundedMap.Exact`). As
long as no more orders are set than fit, both caches hold the same orders, so every call is answered
alike and counted alike, and nothing is driven out (`OrderCache.run_agree`).

The cache of the recently used then never needs to make room: it holds as many pairs as the map has
keys (`RecentPairs.length_eq_card`), so it is full only when no new key is to come.
-/

namespace OrderDesk

/-- Orders by their identities. -/
abbrev OrderMap := Finmap fun _ : String => Order

/-! ## What is relied on of the map -/

/-- Within its capacity the map is exact. `Holds s m` says that `s` is a state that came about
within the capacity and in which the map holds the orders of `m`. -/
structure BoundedMap.Exact {σ : Type} (B : BoundedMap σ) (capacity : Nat)
    (Holds : σ → OrderMap → Prop) : Prop where
  new : Holds (B.new capacity) ∅
  get : ∀ {s m}, Holds s m → ∀ uid, (B.get s uid).1 = m.lookup uid ∧
    Holds (B.get s uid).2.2 m ∧ ∀ cause ∈ (B.get s uid).2.1, cause = .replaced
  insert : ∀ {s m}, Holds s m → ∀ uid o, (m.insert uid o).keys.card ≤ capacity →
    Holds (B.insert s uid o).2 (m.insert uid o) ∧
      ∀ cause ∈ (B.insert s uid o).1, cause = .replaced

/-- A plain map is exact whatever it holds. -/
theorem BoundedMap.plain_exact (capacity : Nat) :
    plain.Exact capacity fun s m => ∀ uid, s.1[uid]? = m.lookup uid where
  new uid := by rw [Finmap.lookup_empty]; exact Std.HashMap.getElem?_empty
  get h uid := ⟨h uid, h, fun _ hcause => absurd hcause List.not_mem_nil⟩
  insert := by
    intro s m h uid o _
    refine ⟨fun u => ?_, fun cause hcause => ?_⟩
    · change (s.1.insert uid o)[u]? = _
      rw [Std.HashMap.getElem?_insert]
      by_cases hu : u = uid
      · rw [hu, beq_self_eq_true, if_pos rfl, Finmap.lookup_insert]
      · rw [beq_false_of_ne (Ne.symm hu), Finmap.lookup_insert_of_ne _ hu]
        exact h u
    · change cause ∈ (if s.1.contains uid then [.replaced] else []) at hcause
      split at hcause
      · exact List.mem_singleton.1 hcause
      · cases hcause

theorem OrderMap.keys_insert (m : OrderMap) (uid : String) (o : Order) :
    (m.insert uid o).keys = insert uid m.keys := by
  ext u
  rw [Finset.mem_insert, Finmap.mem_keys, Finmap.mem_insert, Finmap.mem_keys]

/-! ## The recently used, within their capacity -/

namespace RecentPairs

variable {ps : RecentPairs String Order} {m : OrderMap} {capacity : Nat}

theorem mem_keys (ps : RecentPairs String Order) (uid : String) :
    uid ∈ ps.keys ↔ (ps.peek? uid).isSome := by
  simp [keys, peek?, pair?]

/-- There are as many pairs as keys in a map that finds the same. -/
theorem length_eq_card (distinct : ps.Pairwise fun p q => (p.1 == q.1) = false)
    (same : ∀ uid, ps.peek? uid = m.lookup uid) : ps.length = m.keys.card := by
  have hnodup : ps.keys.Nodup := by
    rw [keys, List.Nodup, List.pairwise_map]
    exact distinct.imp fun h => ne_of_beq_false h
  have hkeys : ps.keys.toFinset = m.keys := by
    ext uid
    rw [List.mem_toFinset, mem_keys, same, Finmap.lookup_isSome, Finmap.mem_keys]
  rw [← hkeys, List.toFinset_card_of_nodup hnodup, keys, List.length_map]

/-- A pair that fits comes in, and the others stay. -/
theorem set_of_room (distinct : ps.Pairwise fun p q => (p.1 == q.1) = false)
    (same : ∀ uid, ps.peek? uid = m.lookup uid) {uid : String} {o : Order}
    (room : (m.insert uid o).keys.card ≤ capacity) :
    (ps.set capacity uid o).1 = none ∧
      ∀ u, (ps.set capacity uid o).2.peek? u = (m.insert uid o).lookup u := by
  have hfind : ∀ qs : RecentPairs String Order, (∀ u, u ≠ uid → qs.peek? u = ps.peek? u) →
      ∀ u, peek? ((uid, o) :: qs) u = (m.insert uid o).lookup u := by
    intro qs hqs u
    rw [peek?_cons]
    by_cases hu : u = uid
    · rw [hu, beq_self_eq_true, if_pos rfl, Finmap.lookup_insert]
    · rw [beq_false_of_ne (Ne.symm hu), Finmap.lookup_insert_of_ne _ hu, ← same, ← hqs u hu]
      rfl
  cases hp : ps.pair? uid with
  | some p =>
    have hset : ps.set capacity uid o = (none, (p.1, o) :: ps.drop uid) := by rw [set, hp]
    rw [hset, eq_of_beq (beq_of_pair? hp)]
    exact ⟨rfl, hfind _ fun u hu => peek?_drop_of_ne hu ps⟩
  | none =>
    -- the key is new to the map as well, which has room for it
    have hnew : uid ∉ m.keys := by
      rw [Finmap.mem_keys, ← Finmap.lookup_isSome, ← same, peek?, hp]
      exact Bool.false_ne_true
    have hlen : ((uid, o) :: ps).length ≤ capacity := by
      rwa [List.length_cons, length_eq_card distinct same, ← Finset.card_insert_of_notMem hnew,
        ← OrderMap.keys_insert m uid o]
    have hset : ps.set capacity uid o = (none, (uid, o) :: ps) := by
      rw [set, hp]
      exact if_pos hlen
    rw [hset]
    exact ⟨rfl, hfind _ fun _ _ => rfl⟩

end RecentPairs

/-! ## Both caches -/

/-- Two caches have counted the same lookups, and no eviction. -/
structure CacheMetrics.Alike (m n : CacheMetrics) : Prop where
  hits : m.hits = n.hits
  misses : m.misses = n.misses
  left : m.evicted = []
  right : n.evicted = []

namespace CacheMetrics

variable {m n : CacheMetrics}

/-- Removals that are replacements count as nothing. -/
theorem recordRemovals_replaced {causes : List RemovalCause}
    (h : ∀ cause ∈ causes, cause = .replaced) : m.recordRemovals causes = m := by
  have hnone : causes.filterMap (·.reason?) = [] := by
    refine List.filterMap_eq_nil_iff.2 fun cause hcause => ?_
    rw [h cause hcause]
    rfl
  rw [recordRemovals, hnone, List.foldl_nil]

theorem Alike.lookup (h : Alike m n) (hit : Bool) :
    Alike ((if hit then m.recordHit else m.recordMiss).recordDuration "get" 0)
      ((if hit then n.recordHit else n.recordMiss).recordDuration "get" 0) := by
  cases hit with
  | true => exact ⟨congrArg (· + 1) h.hits, h.misses, h.left, h.right⟩
  | false => exact ⟨h.hits, congrArg (· + 1) h.misses, h.left, h.right⟩

theorem Alike.write (h : Alike m n) (i j : Nat) :
    Alike ((m.recordDuration "set" 0).updateEntries i)
      ((n.recordDuration "set" 0).updateEntries j) :=
  ⟨h.hits, h.misses, h.left, h.right⟩

end CacheMetrics

/-- What a call of the cache over a map gives. -/
def MapOrderCache.call {σ : Type} (B : BoundedMap σ) (c : MapOrderCache σ) :
    OrderCacheCall → Except OrderError (Option Order) × MapOrderCache σ
  | .get uid => (.ok (c.get B uid).1, (c.get B uid).2)
  | .set o => (.ok none, c.set B o)

/-- The identities under which orders are set. -/
def OrderCacheCall.uids : List OrderCacheCall → Finset String
  | [] => ∅
  | .get _ :: calls => uids calls
  | .set o :: calls => insert o.uid (uids calls)

section
variable {σ : Type} {B : BoundedMap σ} {capacity : Nat} {Holds : σ → OrderMap → Prop}
  {m : OrderMap} {l : LruOrderCache} {d : MapOrderCache σ}

/-- Both caches hold the orders of `m`, and have counted alike. -/
structure Agree (capacity : Nat) (Holds : σ → OrderMap → Prop) (m : OrderMap)
    (l : LruOrderCache) (d : MapOrderCache σ) : Prop where
  lru : ∃ ps, l.cache.Refines capacity ps ∧ ∀ uid, ps.peek? uid = m.lookup uid
  map : Holds d.entries m
  metrics : l.metrics.Alike d.metrics

theorem Agree.get (h : Agree capacity Holds m l d) (exact : B.Exact capacity Holds)
    (uid : String) :
    ∃ l', l.get uid = (.ok (d.get B uid).1, l') ∧ Agree capacity Holds m l' (d.get B uid).2 := by
  obtain ⟨ps, hr, hsame⟩ := h.lru
  obtain ⟨l', hget, hr', hmetrics⟩ := LruOrderCache.exists_get hr uid
  obtain ⟨hfound, hholds, hkept⟩ := exact.get h.map uid
  have hreply : (d.get B uid).1 = ps.peek? uid := hfound.trans (hsame uid).symm
  refine ⟨l', by rw [hget, hreply], ⟨_, hr', fun u => ?_⟩, hholds, ?_⟩
  · rw [RecentPairs.peek?_get]
    exact hsame u
  · rw [hmetrics, ← hreply]
    have hcounted : l.metrics.Alike (d.metrics.recordRemovals (B.get d.entries uid).2.1) := by
      rw [CacheMetrics.recordRemovals_replaced hkept]
      exact h.metrics
    exact hcounted.lookup _

theorem Agree.set (h : Agree capacity Holds m l d) (exact : B.Exact capacity Holds)
    {o : Order} (room : (m.insert o.uid o).keys.card ≤ capacity) :
    ∃ l', l.set o = (.ok (), l') ∧ Agree capacity Holds (m.insert o.uid o) l' (d.set B o) := by
  obtain ⟨ps, hr, hsame⟩ := h.lru
  obtain ⟨l', hset, hr', hmetrics⟩ := LruOrderCache.exists_set hr o
  obtain ⟨hholds, hkept⟩ := exact.insert h.map o.uid o room
  obtain ⟨hnone, hfind⟩ := RecentPairs.set_of_room hr.distinct hsame room
  refine ⟨l', hset, ⟨_, hr', hfind⟩, hholds, ?_⟩
  rw [hmetrics, hnone]
  have hcounted : l.metrics.Alike (d.metrics.recordRemovals (B.insert d.entries o.uid o).1) := by
    rw [CacheMetrics.recordRemovals_replaced hkept]
    exact h.metrics
  exact hcounted.write _ _

/-- Calls that set no more orders than fit. -/
theorem Agree.run (exact : B.Exact capacity Holds) (calls : List OrderCacheCall) :
    ∀ {m l d}, Agree capacity Holds m l d →
      (m.keys ∪ OrderCacheCall.uids calls).card ≤ capacity →
      ∃ m' l', runCalls OrderCache.call (.lru l) calls =
          ((runCalls (MapOrderCache.call B) d calls).1, .lru l') ∧
        Agree capacity Holds m' l' (runCalls (MapOrderCache.call B) d calls).2 := by
  induction calls with
  | nil => exact fun {m l d} h _ => ⟨m, l, rfl, h⟩
  | cons call calls ih =>
    intro m l d h hroom
    cases call with
    | get uid =>
      obtain ⟨l', hget, h'⟩ := h.get exact uid
      obtain ⟨m'', l'', hrun, h''⟩ := ih h' hroom
      refine ⟨m'', l'', ?_, h''⟩
      rw [runCalls, OrderCache.call, OrderCache.get, hget]
      dsimp only
      rw [hrun]
      rfl
    | set o =>
      rw [OrderCacheCall.uids, Finset.union_insert, ← Finset.insert_union,
        ← OrderMap.keys_insert m o.uid o] at hroom
      have hfits : (m.insert o.uid o).keys.card ≤ capacity :=
        Nat.le_trans (Finset.card_le_card Finset.subset_union_left) hroom
      obtain ⟨l', hset, h'⟩ := h.set exact hfits
      obtain ⟨m'', l'', hrun, h''⟩ := ih h' hroom
      refine ⟨m'', l'', ?_, h''⟩
      rw [runCalls, OrderCache.call, OrderCache.set, hset]
      dsimp only
      rw [hrun]
      rfl

theorem MapOrderCache.error_notMem_replies (e : OrderError) (calls : List OrderCacheCall) :
    .error e ∉ (runCalls (MapOrderCache.call B) d calls).1 := by
  induction calls generalizing d with
  | nil => exact List.not_mem_nil
  | cons call calls ih =>
    intro h
    rcases List.mem_cons.1 h with h | h
    · cases call <;> cases h
    · exact ih h

/-- **The backends agree within their capacity**: a new cache of the recently used and a new one
over a map that is exact within the capacity. After any calls that set no more different orders than
fit, all of them have been answered alike and none has failed, both caches have counted the same
hits and misses, and neither has counted an eviction. -/
theorem OrderCache.run_agree (positive : 1 ≤ capacity) (exact : B.Exact capacity Holds) :
    ∃ l d, build .lru capacity = .ok (.lru l) ∧ MapOrderCache.new? B capacity = .ok d ∧
      ∀ calls, (OrderCacheCall.uids calls).card ≤ capacity →
        ∃ l', runCalls call (.lru l) calls =
            ((runCalls (MapOrderCache.call B) d calls).1, .lru l') ∧
          (∀ e, .error e ∉ (runCalls (MapOrderCache.call B) d calls).1) ∧
          l'.metrics.Alike (runCalls (MapOrderCache.call B) d calls).2.metrics := by
  have hpos : ¬capacity = 0 := Nat.ne_of_gt positive
  have hnew : Agree capacity Holds ∅ ⟨⟨∅, .empty, capacity⟩, { backend := "lru" }⟩
      ⟨B.new capacity, { backend := "moka" }⟩ := by
    refine ⟨⟨[], .new capacity, fun uid => ?_⟩, exact.new, rfl, rfl, rfl, rfl⟩
    rw [Finmap.lookup_empty]
    rfl
  refine ⟨⟨⟨∅, .empty, capacity⟩, { backend := "lru" }⟩, _, ?_, if_neg hpos, fun calls hcard => ?_⟩
  · rw [build, LruOrderCache.new?, LruCache.new?, if_neg hpos]
    rfl
  · rw [← Finset.empty_union (OrderCacheCall.uids calls), ← Finmap.keys_empty] at hcard
    obtain ⟨m', l', hrun, h'⟩ := hnew.run exact calls hcard
    exact ⟨l', hrun, fun e => MapOrderCache.error_notMem_replies e calls, h'.metrics⟩

end

/-- The running cache answers and counts as the one over a plain map. -/
theorem MokaOrderCache.run_overMap (c : MokaOrderCache) (calls : List OrderCacheCall) :
    ∃ c' : MokaOrderCache, (runCalls OrderCache.call (.moka c) calls).2 = .moka c' ∧
      runCalls (MapOrderCache.call .plain) c.overMap calls =
        ((runCalls OrderCache.call (.moka c) calls).1, c'.overMap) := by
  induction calls generalizing c with
  | nil => exact ⟨c, rfl, rfl⟩
  | cons call calls ih =>
    cases call with
    | get uid =>
      obtain ⟨c', hc', hrun⟩ := ih (c.get uid).2
      refine ⟨c', hc', ?_⟩
      rw [runCalls, MapOrderCache.call, overMap_get]
      dsimp only
      rw [hrun]
      rfl
    | set o =>
      obtain ⟨c', hc', hrun⟩ := ih (c.set o)
      refine ⟨c', hc', ?_⟩
      rw [runCalls, MapOrderCache.call, overMap_set]
      dsimp only
      rw [hrun]
      rfl

/-- A cache that is full, with orders that are written again. -/
theorem OrderCache.agree_when_full :
    let order (uid track : String) : Order := { (default : Order) with uid, trackNumber := track }
    let calls : List OrderCacheCall := [.set (order "a" "1"), .set (order "b" "1"), .get "a",
      .set (order "b" "2"), .get "c", .set (order "a" "2"), .get "b"]
    1 ≤ 2 ∧ (BoundedMap.plain.Exact 2 fun s m => ∀ uid, s.1[uid]? = m.lookup uid) ∧
    (OrderCacheCall.uids calls).card ≤ 2 ∧
    ∃ l c l' c', build .lru 2 = .ok (.lru l) ∧ build .moka 2 = .ok (.moka c) ∧
      runCalls call (.moka c) calls = ([.ok none, .ok none, .ok (some (order "a" "1")),
        .ok none, .ok none, .ok none, .ok (some (order "b" "2"))], .moka c') ∧
      runCalls call (.lru l) calls = ((runCalls call (.moka c) calls).1, .lru l') ∧
      l'.metrics.Alike c'.metrics ∧ c'.metrics.hits = 2 ∧ c'.metrics.misses = 1 := by
  intro order calls
  have hcard : (OrderCacheCall.uids calls).card ≤ 2 := by decide
  have hplain := BoundedMap.plain_exact 2
  obtain ⟨l, d, hl, hd, h⟩ := OrderCache.run_agree (show 1 ≤ 2 by decide) hplain
  obtain ⟨l', hrun, -, halike⟩ := h calls hcard
  obtain rfl := Except.ok.inj hd
  obtain ⟨c', hc', hmap⟩ := MokaOrderCache.run_overMap ⟨∅, 0, { backend := "moka" }⟩ calls
  have hreplies : (runCalls call (.moka ⟨∅, 0, { backend := "moka" }⟩) calls).1 =
      [.ok none, .ok none, .ok (some (order "a" "1")), .ok none, .ok none, .ok none,
        .ok (some (order "b" "2"))] := by
    simp [runCalls, call, get, set, calls, order, MokaOrderCache.get, MokaOrderCache.set,
      Std.HashMap.getElem_insert, Except.map]
  have hcounts : (runCalls call (.moka ⟨∅, 0, { backend := "moka" }⟩) calls).2.metrics?.map
      (fun m => (m.hits, m.misses)) = some (2, 1) := by
    simp [runCalls, call, get, set, calls, order, MokaOrderCache.get, MokaOrderCache.set, metrics?,
      CacheMetrics.recordHit, CacheMetrics.recordMiss, CacheMetrics.recordDuration,
      CacheMetrics.updateEntries]
  rw [hc'] at hcounts
  obtain ⟨hhits, hmisses⟩ := Prod.mk.inj (Option.some.inj hcounts)
  change runCalls (MapOrderCache.call .plain) ⟨BoundedMap.plain.new 2, _⟩ calls = _ at hmap
  rw [hmap] at hrun halike
  exact ⟨by decide, hplain, hcard, l, _, l', c', hl, rfl, Prod.ext hreplies hc', hrun, halike,
    hhits, hmisses⟩

end OrderDesk
