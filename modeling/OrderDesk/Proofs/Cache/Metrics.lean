import OrderDesk.Proofs.Cache.Entries

/-!
# The metrics of a cache of orders

The counters stand beside the cache and are not read off it. They tell the truth all the same
(`LruOrderCache.run_counters`): a lookup counts once, by what it gave, and an order that is set
under an identity that was not held either makes the cache larger by one or drives one out, which is
counted (`RecentPairs.length_set`).
-/

namespace OrderDesk

/-! ## One pair more, or one driven out -/

namespace RecentPairs

variable {α β : Type} [BEq α] {ps : RecentPairs α β} {p : α × β} {k : α}

/-- Where the keys differ, one pair at most is dropped. -/
theorem length_drop [EquivBEq α] (hd : ps.Pairwise fun p q => (p.1 == q.1) = false)
    (hp : ps.pair? k = some p) : (ps.drop k).length + 1 = ps.length := by
  induction ps with
  | nil => cases hp
  | cons q ps ih =>
    obtain ⟨hq, hd⟩ := List.pairwise_cons.1 hd
    rw [pair?, List.find?_cons] at hp
    rw [drop, List.filter_cons]
    cases hk : q.1 == k with
    | true =>
      -- no other pair has the key
      have hrest : pair? ps k = none := List.find?_eq_none.2 fun r hr => by
        rw [← BEq.congr_right hk, BEq.comm, hq r hr]
        exact Bool.false_ne_true
      exact congrArg (·.length + 1) (drop_eq_self_of_pair? hrest)
    | false =>
      rw [hk] at hp
      exact congrArg (· + 1) (ih hd hp)

/-- A pair that is set under a key that is there takes the place of the old one; under another key
it makes one more, or one is driven out for it. -/
theorem length_set [EquivBEq α] (hd : ps.Pairwise fun p q => (p.1 == q.1) = false)
    (capacity : Nat) (k : α) (v : β) :
    (ps.set capacity k v).1.isSome.toNat + (ps.set capacity k v).2.length =
      ps.length + (!ps.contains k).toNat := by
  rw [set, contains]
  cases hp : ps.pair? k with
  | some p => exact (Nat.zero_add _).trans (length_drop hd hp)
  | none =>
    dsimp only
    split
    next => exact Nat.zero_add _
    next =>
      rw [List.getLast?_eq_some_getLast (List.cons_ne_nil _ _), List.length_dropLast]
      exact Nat.add_comm 1 _

/-- A lookup makes no pair more and none less. -/
theorem length_get [EquivBEq α] (hd : ps.Pairwise fun p q => (p.1 == q.1) = false) (k : α) :
    (ps.get k).2.length = ps.length := by
  rw [get]
  cases hp : ps.pair? k with
  | some p => exact length_drop hd hp
  | none => rfl

end RecentPairs

/-! ## The counters -/

namespace Tally

variable {κ : Type} [BEq κ]

theorem sum_bump (t : Tally κ) (key : κ) :
    ((t.bump key).map (·.2)).foldr (· + ·) 0 = (t.map (·.2)).foldr (· + ·) 0 + 1 := by
  induction t with
  | nil => rfl
  | cons kn t ih =>
    rw [bump]
    split
    · exact Nat.add_right_comm _ _ _
    · exact (congrArg (kn.2 + ·) ih).trans (Nat.add_assoc _ _ _).symm

end Tally

/-- Recording an eviction for any reason raises the number of evictions by one. -/
theorem CacheMetrics.evictions_recordEviction (m : CacheMetrics) (reason : String) :
    (m.recordEviction reason).evictions = m.evictions + 1 := m.evicted.sum_bump reason

theorem countP_cons_toNat {α : Type} (p : α → Bool) (x : α) (l : List α) :
    (x :: l).countP p = (p x).toNat + l.countP p := by
  rw [List.countP_cons, Nat.add_comm]
  cases p x <;> rfl

/-! ## Calls as they are met -/

/-- A call, the cache that it came upon, and what it gave. -/
structure CacheEvent where
  before : LruOrderCache
  call : OrderCacheCall
  answer : Except OrderError (Option Order)

namespace CacheEvent

/-- A lookup gave an order. -/
def hit (e : CacheEvent) : Bool :=
  match e.call, e.answer with
  | .get _, .ok (some _) => true
  | _, _ => false

/-- A lookup gave none. -/
def miss (e : CacheEvent) : Bool :=
  match e.call, e.answer with
  | .get _, .ok none => true
  | _, _ => false

/-- An order was set under an identity that was not held then. -/
def fresh (e : CacheEvent) : Bool :=
  match e.call with
  | .set o => !e.before.cache.contains o.uid
  | .get _ => false

end CacheEvent

namespace LruOrderCache

variable {c c' : LruOrderCache} {e : CacheEvent} {capacity : Nat} {ps : RecentPairs String Order}

/-- Answers a call, and tells of it. -/
def observe (c : LruOrderCache) (k : OrderCacheCall) : CacheEvent × LruOrderCache :=
  match k with
  | .get uid => ({ before := c, call := k, answer := (c.get uid).1 }, (c.get uid).2)
  | .set o =>
    ({ before := c, call := k, answer := (c.set o).1.map fun _ => none }, (c.set o).2)

/-- The counters go from `c` to `c'` as the event says. -/
structure Counts (c : LruOrderCache) (e : CacheEvent) (c' : LruOrderCache) : Prop where
  answered : e.answer.isOk
  hits : c'.metrics.hits = c.metrics.hits + e.hit.toNat
  misses : c'.metrics.misses = c.metrics.misses + e.miss.toNat
  evictions : c'.metrics.evictions + c'.size = c.metrics.evictions + c.size + e.fresh.toNat

/-- A new cache holds nothing and has counted nothing. -/
theorem exists_new (positive : 1 ≤ capacity) :
    ∃ c, new? capacity = .ok c ∧ c.cache.Refines capacity [] ∧
      c.metrics = { backend := "lru" } := by
  refine ⟨⟨⟨∅, .empty, capacity⟩, { backend := "lru" }⟩, ?_, .new capacity, rfl⟩
  rw [new?, LruCache.new?, if_neg (Nat.ne_of_gt positive)]; rfl

theorem size_eq (h : c.cache.Refines capacity ps) : c.size = ps.length := h.size

theorem counts_get (h : c.cache.Refines capacity ps) (uid : String) :
    c.Counts (c.observe (.get uid)).1 (c.observe (.get uid)).2 ∧
      (c.observe (.get uid)).2.cache.Refines capacity (ps.get uid).2 := by
  obtain ⟨c', he, h', hm⟩ := exists_get h uid
  have hsize : c'.size = c.size := by
    rw [size_eq h', size_eq h, RecentPairs.length_get h.distinct]
  simp only [observe, he]
  refine ⟨?_, h'⟩
  cases hfound : ps.peek? uid with
  | none =>
    rw [hfound] at hm
    refine ⟨rfl, by rw [hm]; rfl, by rw [hm]; rfl, ?_⟩
    rw [hm, hsize]; rfl
  | some o =>
    rw [hfound] at hm
    refine ⟨rfl, by rw [hm]; rfl, by rw [hm]; rfl, ?_⟩
    rw [hm, hsize]; rfl

theorem counts_set (h : c.cache.Refines capacity ps) (o : Order) :
    c.Counts (c.observe (.set o)).1 (c.observe (.set o)).2 ∧
      (c.observe (.set o)).2.cache.Refines capacity (ps.set capacity o.uid o).2 := by
  obtain ⟨c', he, h', hm⟩ := exists_set h o
  have hlength := RecentPairs.length_set h.distinct capacity o.uid o
  rw [← size_eq h', ← size_eq h, ← h.contains] at hlength
  simp only [observe, he]
  refine ⟨?_, h'⟩
  cases hout : (ps.set capacity o.uid o).1.isSome with
  | false =>
    rw [hout] at hm hlength
    have hsame : c'.metrics.evictions = c.metrics.evictions := by rw [hm]; rfl
    refine ⟨rfl, by rw [hm]; rfl, by rw [hm]; rfl, ?_⟩
    rw [hsame, Nat.add_assoc]
    exact congrArg _ ((Nat.zero_add _).symm.trans hlength)
  | true =>
    rw [hout] at hm hlength
    have hmore : c'.metrics.evictions = c.metrics.evictions + 1 := by
      rw [hm]
      exact c.metrics.evictions_recordEviction "capacity"
    refine ⟨rfl, by rw [hm]; rfl, by rw [hm]; rfl, ?_⟩
    rw [hmore, Nat.add_assoc, Nat.add_assoc]
    exact congrArg _ hlength

/-- Answers calls, and tells of each. -/
def history (c : LruOrderCache) (calls : List OrderCacheCall) : List CacheEvent × LruOrderCache :=
  runCalls observe c calls

/-- What the events of any calls say, the counters say. -/
theorem counts_history (h : c.cache.Refines capacity ps) (calls : List OrderCacheCall) :
    (∀ e ∈ (c.history calls).1, e.answer.isOk) ∧
      (c.history calls).2.metrics.hits = c.metrics.hits + (c.history calls).1.countP (·.hit) ∧
      (c.history calls).2.metrics.misses = c.metrics.misses + (c.history calls).1.countP (·.miss) ∧
      (c.history calls).2.metrics.evictions + (c.history calls).2.size =
        c.metrics.evictions + c.size + (c.history calls).1.countP (·.fresh) := by
  induction calls generalizing c ps with
  | nil => exact ⟨List.forall_mem_nil _, rfl, rfl, rfl⟩
  | cons k calls ih =>
    obtain ⟨hk, ps', h'⟩ : c.Counts (c.observe k).1 (c.observe k).2 ∧
        ∃ ps', (c.observe k).2.cache.Refines capacity ps' := by
      cases k with
      | get uid => exact (counts_get h uid).imp_right fun h => ⟨_, h⟩
      | set o => exact (counts_set h o).imp_right fun h => ⟨_, h⟩
    obtain ⟨hanswered, hhits, hmisses, hevictions⟩ := ih h'
    have hcons : c.history (k :: calls) = ((c.observe k).1 :: ((c.observe k).2.history calls).1,
      ((c.observe k).2.history calls).2) := rfl
    simp only [hcons, countP_cons_toNat]
    refine ⟨List.forall_mem_cons.2 ⟨hk.answered, hanswered⟩, ?_, ?_, ?_⟩
    · rw [hhits, hk.hits, Nat.add_assoc]
    · rw [hmisses, hk.misses, Nat.add_assoc]
    · rw [hevictions, hk.evictions, Nat.add_assoc]

/-- **The metrics of a cache tell the truth.** On a new cache of any capacity no call fails, the hits
are the lookups that gave an order, the misses those that gave none, and the evictions together with
the orders held are as many as the orders that were set under an identity not held at that time. -/
theorem run_counters (positive : 1 ≤ capacity) :
    ∃ c, new? capacity = .ok c ∧ ∀ calls : List OrderCacheCall,
      (∀ e ∈ (c.history calls).1, e.answer.isOk) ∧
      (c.history calls).2.metrics.hits = (c.history calls).1.countP (·.hit) ∧
      (c.history calls).2.metrics.misses = (c.history calls).1.countP (·.miss) ∧
      (c.history calls).2.metrics.evictions + (c.history calls).2.size =
        (c.history calls).1.countP (·.fresh) := by
  obtain ⟨c, hnew, hrefines, hmetrics⟩ := exists_new positive
  refine ⟨c, hnew, fun calls => ?_⟩
  obtain ⟨hanswered, hhits, hmisses, hevictions⟩ := counts_history hrefines calls
  rw [hmetrics] at hhits hmisses hevictions
  refine ⟨hanswered, hhits.trans (Nat.zero_add _), hmisses.trans (Nat.zero_add _),
    hevictions.trans ?_⟩
  rw [size_eq hrefines]
  exact Nat.zero_add _

/-- The orders a, b and c come in, a is found, b is driven out, is not found, and comes in again; c
is overwritten. -/
def comingsAndGoings : List OrderCacheCall :=
  let order := fun uid => { (default : Order) with uid }
  [.set (order "a"), .set (order "b"), .get "a", .set (order "c"), .get "b", .set (order "c"),
    .set (order "b")]

theorem run_counters_of_capacity_two :
    1 ≤ 2 ∧ ∃ c, new? 2 = .ok c ∧
      (∀ e ∈ (c.history comingsAndGoings).1, e.answer.isOk) ∧
      (c.history comingsAndGoings).2.metrics.hits =
        (c.history comingsAndGoings).1.countP (·.hit) ∧
      (c.history comingsAndGoings).2.metrics.misses =
        (c.history comingsAndGoings).1.countP (·.miss) ∧
      (c.history comingsAndGoings).2.metrics.evictions + (c.history comingsAndGoings).2.size =
        (c.history comingsAndGoings).1.countP (·.fresh) := by
  obtain ⟨c, hnew, h⟩ := run_counters (show 1 ≤ 2 by decide)
  exact ⟨by decide, c, hnew, h comingsAndGoings⟩

end LruOrderCache

end OrderDesk
