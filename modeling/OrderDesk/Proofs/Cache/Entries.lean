import OrderDesk.Cache.OrderCache
import OrderDesk.Proofs.Cache.RecentlyUsed

/-!
# What a cache of orders holds

A lookup finds what the cache holds under an identity (`OrderCache.cached?`) and leaves it as it is.
Setting an order puts it there; other orders may be driven out, and none comes in besides. This is
all that callers need to know of a cache (`OrderCache.Sound.get`, `OrderCache.Sound.set`).
-/

namespace OrderDesk

/-! ## Pairs by their keys -/

namespace RecentPairs

variable {α β : Type} [BEq α] {c : RecentPairs α β} {capacity : Nat} {k k' : α} {v w : β}

theorem peek?_cons (p : α × β) (c : RecentPairs α β) (k : α) :
    peek? (p :: c) k = if p.1 == k then some p.2 else c.peek? k := by
  rw [peek?, pair?, List.find?_cons]
  cases p.1 == k <;> rfl

/-- A read finds what is there. -/
theorem fst_get (c : RecentPairs α β) (k : α) : (c.get k).1 = c.peek? k := by
  rw [get, peek?]
  cases c.pair? k <;> rfl

variable [LawfulBEq α]

theorem peek?_drop_of_ne (h : k' ≠ k) (c : RecentPairs α β) : (c.drop k).peek? k' = c.peek? k' := by
  rw [peek?, peek?, pair?, pair?, drop, List.find?_filter]
  congr 2
  funext p
  by_cases hp : p.1 = k
  · rw [hp, beq_self_eq_true, beq_false_of_ne h.symm]
    rfl
  · rw [beq_false_of_ne hp]
    simp only [Bool.not_false, true_and, Bool.decide_eq_true]

/-- A hit changes the order of the pairs only. -/
theorem peek?_get (c : RecentPairs α β) (k k' : α) : (c.get k).2.peek? k' = c.peek? k' := by
  unfold get
  split
  · rename_i p hp
    have hk : p.1 = k := eq_of_beq (beq_of_pair? hp)
    by_cases hne : k' = k
    · rw [peek?_cons, hk, hne, beq_self_eq_true, if_pos rfl, peek?, hp]
      rfl
    · rw [peek?_cons, hk, beq_false_of_ne (Ne.symm hne)]
      exact peek?_drop_of_ne hne c
  · rfl

/-- The pair that was set is there, unless the cache may hold none. -/
theorem peek?_set (h : 1 ≤ capacity) (c : RecentPairs α β) (k : α) (v : β) :
    (c.set capacity k v).2.peek? k = some v := by
  unfold set
  split
  · rename_i p hp
    have hk : p.1 = k := eq_of_beq (beq_of_pair? hp)
    rw [peek?_cons, hk, beq_self_eq_true]
    rfl
  · dsimp only
    split
    · rw [peek?_cons, beq_self_eq_true]
      rfl
    · rename_i hlong
      cases c with
      | nil => exact absurd h hlong
      | cons p c =>
        rw [List.dropLast_cons_cons, peek?_cons, beq_self_eq_true]
        rfl

/-- Setting a pair brings in no other one. -/
theorem peek?_of_set (h : k' ≠ k) (hw : (c.set capacity k v).2.peek? k' = some w) :
    c.peek? k' = some w := by
  unfold set at hw
  split at hw
  · rename_i p hp
    have hk : p.1 = k := eq_of_beq (beq_of_pair? hp)
    rw [peek?_cons, hk, beq_false_of_ne h.symm] at hw
    exact (peek?_drop_of_ne h c).symm.trans hw
  have hcons : peek? ((k, v) :: c) k' = c.peek? k' := by
    rw [peek?_cons, beq_false_of_ne h.symm]
    rfl
  rw [← hcons]
  dsimp only at hw
  split at hw
  · exact hw
  · obtain ⟨p, hp, rfl⟩ := Option.map_eq_some_iff.1 hw
    exact congrArg (Option.map Prod.snd) ((List.dropLast_prefix _).find?_eq_some hp)

end RecentPairs

/-! ## Orders by their identities -/

namespace LruOrderCache

variable {c : LruOrderCache} {capacity : Nat} {ps : RecentPairs String Order}

/-- A lookup finds what is there, and counts as a hit or as a miss. -/
theorem exists_get (h : c.cache.Refines capacity ps) (uid : String) :
    ∃ c', c.get uid = (.ok (ps.peek? uid), c') ∧ c'.cache.Refines capacity (ps.get uid).2 ∧
      c'.metrics = (if (ps.peek? uid).isSome then c.metrics.recordHit
        else c.metrics.recordMiss).recordDuration "get" 0 := by
  obtain ⟨cache, he, hr⟩ := h.get uid
  rw [RecentPairs.fst_get] at he
  refine ⟨(c.get uid).2, ?_, ?_, ?_⟩
  · simp only [get, he]
  · simpa only [get, he] using hr
  · simp only [get, he]

/-- Setting an order never fails; it counts if another one is driven out. -/
theorem exists_set (h : c.cache.Refines capacity ps) (o : Order) :
    ∃ c', c.set o = (.ok (), c') ∧
      c'.cache.Refines capacity (ps.set capacity o.uid o).2 ∧
      c'.metrics = ((if (ps.set capacity o.uid o).1.isSome then
        c.metrics.recordEviction "capacity" else c.metrics).recordDuration "set" 0).updateEntries
          c'.cache.size := by
  obtain ⟨cache, he, hr⟩ := h.set o.uid o
  refine ⟨(c.set o).2, ?_, ?_, ?_⟩
  · simp only [set, he]
  · simpa only [set, he] using hr
  · simp only [set, he]

end LruOrderCache

namespace OrderCache

/-- What a lookup finds. -/
def cached? (c : OrderCache) (uid : String) : Option Order :=
  match c with
  | .lru c => c.cache.peek? uid
  | .moka c => c.entries[uid]?
  | .faulty _ => none

/-! ### The recently used -/

/-- It is a cache of the recently used that holds these pairs. -/
def Keeps (capacity : Nat) (ps : RecentPairs String Order) (c : OrderCache) : Prop :=
  ∃ l : LruOrderCache, c = .lru l ∧ l.cache.Refines capacity ps

variable {c : OrderCache} {uid : String} {o : Order} {capacity : Nat}
  {ps : RecentPairs String Order}

/-- A new cache is empty, and may hold something. -/
theorem keeps_build (h : build .lru capacity = .ok c) : 1 ≤ capacity ∧ c.Keeps capacity [] := by
  simp only [build, LruOrderCache.new?, LruCache.new?] at h
  split at h
  · cases h
  · rename_i hpos
    cases h
    exact ⟨Nat.pos_of_ne_zero hpos, _, rfl, .new capacity⟩

theorem Keeps.length_le (h : c.Keeps capacity ps) : ps.length ≤ capacity := by
  obtain ⟨l, -, hr⟩ := h
  exact hr.length_le

theorem Keeps.cached? (h : c.Keeps capacity ps) (uid : String) :
    c.cached? uid = ps.peek? uid := by
  obtain ⟨l, rfl, hr⟩ := h
  exact hr.peek? uid

theorem Keeps.get (h : c.Keeps capacity ps) (uid : String) :
    ∃ c', c.get uid = (.ok (c.cached? uid), c') ∧ c'.Keeps capacity (ps.get uid).2 := by
  have hfound := h.cached? uid
  obtain ⟨l, rfl, hr⟩ := h
  obtain ⟨l', hget, hr', -⟩ := LruOrderCache.exists_get hr uid
  refine ⟨.lru l', ?_, l', rfl, hr'⟩
  rw [OrderCache.get, hget, hfound]

theorem Keeps.set (h : c.Keeps capacity ps) (o : Order) :
    ∃ c', c.set o = (.ok (), c') ∧ c'.Keeps capacity (ps.set capacity o.uid o).2 := by
  obtain ⟨l, rfl, hr⟩ := h
  obtain ⟨l', hset, hr', -⟩ := LruOrderCache.exists_set hr o
  refine ⟨.lru l', ?_, l', rfl, hr'⟩
  rw [OrderCache.set, hset]

/-! ### Any cache that does not fail -/

/-- It is one of the caches that do not fail, and in order. -/
inductive Sound : OrderCache → Prop where
  | lru (c : LruOrderCache) {capacity : Nat} (positive : 1 ≤ capacity)
      {ps : RecentPairs String Order} (refines : c.cache.Refines capacity ps) : Sound (.lru c)
  | moka (c : MokaOrderCache) : Sound (.moka c)

theorem Keeps.sound (h : c.Keeps capacity ps) (positive : 1 ≤ capacity) : c.Sound := by
  obtain ⟨l, rfl, hr⟩ := h
  exact .lru l positive hr

/-- A new cache is empty. -/
theorem sound_build {backend : CacheBackend} (h : build backend capacity = .ok c) :
    c.Sound ∧ ∀ uid, c.cached? uid = none := by
  cases backend with
  | lru =>
    obtain ⟨hpos, hkeeps⟩ := keeps_build h
    exact ⟨hkeeps.sound hpos, hkeeps.cached?⟩
  | moka =>
    simp only [build, MokaOrderCache.new?] at h
    split at h <;> cases h
    exact ⟨.moka _, fun uid => Std.HashMap.getElem?_empty⟩

theorem Sound.get (h : c.Sound) (uid : String) :
    ∃ c', c.get uid = (.ok (c.cached? uid), c') ∧ c'.Sound ∧ ∀ u, c'.cached? u = c.cached? u := by
  cases h with
  | lru l positive refines =>
    rename_i capacity ps
    have hkeeps : Keeps capacity ps (.lru l) := ⟨l, rfl, refines⟩
    obtain ⟨c', hget, hc'⟩ := hkeeps.get uid
    refine ⟨c', hget, hc'.sound positive, fun u => ?_⟩
    rw [hc'.cached?, hkeeps.cached?, RecentPairs.peek?_get]
  | moka c => exact ⟨_, rfl, .moka _, fun u => rfl⟩

theorem Sound.set (h : c.Sound) (o : Order) :
    ∃ c', c.set o = (.ok (), c') ∧ c'.Sound ∧ c'.cached? o.uid = some o ∧
      ∀ u w, u ≠ o.uid → c'.cached? u = some w → c.cached? u = some w := by
  cases h with
  | lru l positive refines =>
    rename_i capacity ps
    have hkeeps : Keeps capacity ps (.lru l) := ⟨l, rfl, refines⟩
    obtain ⟨c', hset, hc'⟩ := hkeeps.set o
    refine ⟨c', hset, hc'.sound positive, ?_, fun u w hu hw => ?_⟩
    · rw [hc'.cached?, RecentPairs.peek?_set positive]
    · rw [hc'.cached?] at hw
      rw [hkeeps.cached?]
      exact RecentPairs.peek?_of_set hu hw
  | moka c =>
    refine ⟨_, rfl, .moka _, ?_, fun u w hu hw => ?_⟩
    · exact Std.HashMap.getElem?_insert_self
    · change (c.entries.insert o.uid o)[u]? = some w at hw
      rw [Std.HashMap.getElem?_insert, beq_false_of_ne hu.symm] at hw
      exact hw

end OrderCache

/-! ## Calls of a cache -/

inductive OrderCacheCall where
  | get (uid : String)
  | set (o : Order)
  deriving DecidableEq, Repr

namespace OrderCache

/-- What a call gives: the order that was found, if any. -/
def call (c : OrderCache) : OrderCacheCall → Except OrderError (Option Order) × OrderCache
  | .get uid => c.get uid
  | .set o =>
    let (r, c) := c.set o
    (r.map fun _ => none, c)

theorem Keeps.call {c : OrderCache} {capacity : Nat} {ps : RecentPairs String Order}
    (h : c.Keeps capacity ps) (k : OrderCacheCall) : ∃ ps, (c.call k).2.Keeps capacity ps := by
  cases k with
  | get uid =>
    obtain ⟨c', hget, hc'⟩ := h.get uid
    refine ⟨(ps.get uid).2, ?_⟩
    rw [OrderCache.call, hget]
    exact hc'
  | set o =>
    obtain ⟨c', hset, hc'⟩ := h.set o
    refine ⟨(ps.set capacity o.uid o).2, ?_⟩
    rw [OrderCache.call, hset]
    exact hc'

end OrderCache

end OrderDesk
