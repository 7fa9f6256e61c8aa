import Mathlib.Data.List.Nodup
import OrderDesk.Proofs.Cache.WorkingSet
import OrderDesk.Proofs.Service.CacheAside

/-!
# Warming up a cache that is too small

A warm-up puts the latest orders into the cache one after the other, the most recent one first. A
cache of the recently used holds what was put in last. Where not all of the orders fit, the ones
that stay are hence the oldest of them (`Service.warm_keeps_oldest`), and the most recent order may
not be cached though the warm-up counted it (`Service.latest_driven_out`).

All that matters is the order in which the pairs are put in: the last ones are in front of whatever
was held before (`RecentPairs.prefix_setAll`).
-/

namespace OrderDesk

/-! ## Pairs put in one after the other -/

namespace RecentPairs

variable {α β : Type} [BEq α] {c : RecentPairs α β} {capacity : Nat} {ps : List (α × β)} {p : α × β}

/-- The pairs that are there when these have been set, one after the other. -/
def setAll (capacity : Nat) (c : RecentPairs α β) (ps : List (α × β)) : RecentPairs α β :=
  ps.foldl (fun c p => (c.set capacity p.1 p.2).2) c

variable [LawfulBEq α]

theorem drop_eq_self {k : α} (h : ∀ q ∈ c, q.1 ≠ k) : c.drop k = c := by
  apply List.filter_eq_self.2
  intro q hq
  rw [beq_false_of_ne (h q hq)]
  rfl

/-- Setting a pair puts it in front of the others and drops what is too much. -/
theorem set_eq_take (h : c.length ≤ capacity) (k : α) (v : β) :
    (c.set capacity k v).2 = ((k, v) :: c.drop k).take capacity := by
  obtain ⟨k', hk', he⟩ := exists_set_eq_take h k v
  rw [he, eq_of_beq hk']

theorem length_setAll (h : c.length ≤ capacity) (ps : List (α × β)) :
    (setAll capacity c ps).length ≤ capacity := by
  induction ps generalizing c with
  | nil => exact h
  | cons p ps ih =>
    have hset : (c.set capacity p.1 p.2).2.length ≤ capacity := by
      rw [set_eq_take h]
      exact List.length_take_le _ _
    exact ih hset

/-- The pairs that were set last come first, as many of them as fit. -/
theorem prefix_setAll (h : c.length ≤ capacity) (hd : (ps.map Prod.fst).Nodup) :
    ps.reverse.take capacity <+: setAll capacity c ps := by
  induction ps using List.reverseRecOn with
  | nil => exact List.take_nil.symm ▸ List.nil_prefix
  | append_singleton ps p ih =>
    rw [List.map_append, List.nodup_append] at hd
    obtain ⟨hd, -, hnew⟩ := hd
    have hset : setAll capacity c (ps ++ [p]) =
        (p :: (setAll capacity c ps).drop p.1).take capacity := by
      rw [setAll, List.foldl_append]
      exact set_eq_take (length_setAll h ps) p.1 p.2
    -- the key is a new one, so those in front are still there
    have hkept : RecentPairs.drop (ps.reverse.take capacity) p.1 = ps.reverse.take capacity := by
      refine drop_eq_self fun q hq => ?_
      have hmem : q ∈ ps := List.mem_reverse.1 (List.mem_of_mem_take hq)
      exact hnew q.1 (List.mem_map_of_mem hmem) p.1 (List.mem_singleton.2 rfl)
    have hprefix : ps.reverse.take capacity <+: (setAll capacity c ps).drop p.1 :=
      hkept ▸ (ih hd).filter fun q : α × β => !(q.1 == p.1)
    rw [hset, List.reverse_append, List.reverse_singleton, List.singleton_append]
    cases capacity with
    | zero => exact List.nil_prefix
    | succ n =>
      have hfront : ps.reverse.take n <+: ((setAll (n + 1) c ps).drop p.1).take n :=
        List.prefix_take_iff.2 ⟨(List.take_prefix_take_left (Nat.le_succ n)).trans hprefix,
          List.length_take_le _ _⟩
      exact List.cons_prefix_cons.2 ⟨rfl, hfront⟩

theorem peek?_of_mem (hd : (ps.map Prod.fst).Nodup) (hp : p ∈ ps) : peek? ps p.1 = some p.2 := by
  induction ps with
  | nil => cases hp
  | cons q ps ih =>
    rw [List.map_cons, List.nodup_cons] at hd
    rw [peek?_cons]
    rcases List.mem_cons.1 hp with rfl | hp
    · rw [beq_self_eq_true, if_pos rfl]
    · have hne : q.1 ≠ p.1 := fun he => hd.1 (he ▸ List.mem_map_of_mem hp)
      rw [beq_false_of_ne hne]
      exact ih hd.2 hp

/-- A pair that is among the last ones is there. -/
theorem peek?_setAll_of_mem (h : c.length ≤ capacity) (hd : (ps.map Prod.fst).Nodup)
    (hp : p ∈ ps.drop (ps.length - capacity)) : (setAll capacity c ps).peek? p.1 = some p.2 := by
  have hfront : p ∈ ps.reverse.take capacity := by
    rwa [List.take_reverse, List.mem_reverse]
  have hprefix := prefix_setAll h hd
  have hnodup : ((ps.reverse.take capacity).map Prod.fst).Nodup := by
    rw [List.map_take, List.map_reverse]
    exact (List.nodup_reverse.2 hd).sublist (List.take_sublist _ _)
  obtain ⟨q, hq, he⟩ := Option.map_eq_some_iff.1 (peek?_of_mem hnodup hfront)
  rw [peek?, pair?, hprefix.find?_eq_some hq, Option.map_some, he]

/-- The others were driven out. -/
theorem peek?_setAll_of_notMem (h : c.length ≤ capacity) (hd : (ps.map Prod.fst).Nodup)
    (hp : p ∈ ps) (hlast : p ∉ ps.drop (ps.length - capacity)) :
    (setAll capacity c ps).peek? p.1 = none := by
  have hmany : capacity < ps.length := by
    by_contra hle
    rw [Nat.sub_eq_zero_of_le (Nat.le_of_not_lt hle)] at hlast
    exact hlast hp
  have hlen : (ps.reverse.take capacity).length = capacity := by
    rw [List.length_take, List.length_reverse, Nat.min_eq_left (Nat.le_of_lt hmany)]
  have hall : ps.reverse.take capacity = setAll capacity c ps :=
    (prefix_setAll h hd).eq_of_length_le (hlen.symm ▸ length_setAll h ps)
  rw [List.take_reverse] at hall
  rw [peek?, pair?, Option.map_eq_none_iff, List.find?_eq_none, ← hall]
  intro q hq hkey
  rw [List.mem_reverse] at hq
  have he : q = p := List.inj_on_of_nodup_map hd (List.mem_of_mem_drop hq) hp (eq_of_beq hkey)
  exact hlast (he ▸ hq)

end RecentPairs

/-! ## Orders put in one after the other -/

namespace Service

variable {s : Service} {capacity : Nat} {ps : RecentPairs String Order} {os : List Order}
  {limit : Nat}

/-- What a warm-up puts in. -/
def pairs (os : List Order) : List (String × Order) := os.map fun o => (o.uid, o)

theorem fst_pairs (os : List Order) : (pairs os).map Prod.fst = os.map (·.uid) := by
  rw [pairs, List.map_map]
  rfl

theorem insert_keeps (h : s.cache.Keeps capacity ps) (o : Order) :
    ∃ cache, s.insert o = (.ok (), { s with cache }) ∧
      cache.Keeps capacity (ps.set capacity o.uid o).2 := by
  obtain ⟨cache, hset, hcache⟩ := h.set o
  refine ⟨cache, ?_, hcache⟩
  rw [insert, hset]

theorem insertAll_keeps (h : s.cache.Keeps capacity ps) (os : List Order) :
    (s.insertAll os).1 = .ok () ∧
      (s.insertAll os).2.cache.Keeps capacity (ps.setAll capacity (pairs os)) := by
  induction os generalizing s ps with
  | nil => exact ⟨rfl, h⟩
  | cons o os ih =>
    obtain ⟨cache, hinsert, hcache⟩ := insert_keeps h o
    rw [insertAll, hinsert]
    exact ih (s := { s with cache }) hcache

theorem flush_cache_keeps (h : s.cache.Keeps capacity ps) :
    ∃ ps, s.flush.cache.Keeps capacity ps := by
  refine flush_keeps_of_runFill (P := fun s => ∃ ps, s.cache.Keeps capacity ps) ?_ ⟨ps, h⟩
  rintro s ⟨ps, h⟩
  cases hfills : s.fills with
  | nil => exact ⟨ps, by rwa [runFill, hfills]⟩
  | cons o rest =>
    obtain ⟨cache, hinsert, hcache⟩ := insert_keeps (s := { s with fills := rest }) h o
    refine ⟨(ps.set capacity o.uid o).2, ?_⟩
    rw [runFill, hfills]
    dsimp only
    rw [hinsert]
    exact hcache

/-- Of orders that were put in one after the other, the cache holds the last ones. -/
theorem cached?_insertAll (h : s.cache.Keeps capacity ps) (hd : (os.map (·.uid)).Nodup)
    {o : Order} (ho : o ∈ os) :
    (s.insertAll os).2.cache.cached? o.uid =
      if o ∈ os.drop (os.length - capacity) then some o else none := by
  have hpairs : ((pairs os).map Prod.fst).Nodup := (fst_pairs os).symm ▸ hd
  have hmem : (o.uid, o) ∈ pairs os := List.mem_map_of_mem ho
  have hlast : (o.uid, o) ∈ (pairs os).drop ((pairs os).length - capacity) ↔
      o ∈ os.drop (os.length - capacity) := by
    rw [pairs, List.length_map, ← List.map_drop, List.mem_map]
    refine ⟨?_, fun hdrop => ⟨o, hdrop, rfl⟩⟩
    rintro ⟨v, hv, he⟩
    exact (Prod.mk.inj he).2 ▸ hv
  rw [(insertAll_keeps h os).2.cached?]
  split
  · rename_i hdrop
    exact RecentPairs.peek?_setAll_of_mem h.length_le hpairs (hlast.2 hdrop)
  · rename_i hdrop
    exact RecentPairs.peek?_setAll_of_notMem h.length_le hpairs hmem fun hl => hdrop (hlast.1 hl)

/-! ## Warming up -/

theorem warm_of_last (h : s.last limit = .ok os) (hos : os ≠ []) :
    s.warm limit =
      ((s.flush.insertAll os).1.map fun () => os.length, (s.flush.insertAll os).2) := by
  rw [warm, h]
  cases os with
  | nil => exact absurd rfl hos
  | cons o os => rfl

/-- Whatever was cached before and whatever fills were left: a warm-up counts all of the latest
orders, and of these the cache then holds those that were put in last, as many as it may. These are
the oldest ones, since the most recent order is put in first. Had the orders been put in in another
order, the last ones would be there, too. -/
theorem warm_keeps_oldest {cache : OrderCache} (hcache : OrderCache.build .lru capacity = .ok cache)
    (uses : List OrderCacheCall) (orders fills : List Order) (limit : Nat) :
    let s : Service :=
      { store := .ofOrders orders, cache := (runCalls OrderCache.call cache uses).2, fills }
    ∃ os, s.store.Latest limit os ∧ (s.warm limit).1 = .ok os.length ∧
      (∀ o ∈ os, (s.warm limit).2.cache.cached? o.uid =
        if o ∈ os.drop (os.length - capacity) then some o else none) ∧
      ∀ os', os'.Perm os → ∀ o ∈ os, (s.flush.insertAll os').2.cache.cached? o.uid =
        if o ∈ os'.drop (os.length - capacity) then some o else none := by
  intro s
  obtain ⟨ps, hused⟩ : ∃ ps, s.cache.Keeps capacity ps := by
    refine runCalls_keeps (P := fun c : OrderCache => ∃ ps, c.Keeps capacity ps) ?_
      ⟨[], (OrderCache.keeps_build hcache).2⟩ uses
    rintro c call ⟨ps, h⟩
    exact h.call call
  obtain ⟨ps, hflush⟩ := flush_cache_keeps hused
  have hlatest := (OrderStore.keyed_ofOrders orders).latest_last limit
  refine ⟨_, hlatest, ?_⟩
  generalize hos : (OrderStore.ofOrders orders).last limit = os at hlatest ⊢
  have hlast : s.last limit = .ok os := by
    rw [last, hos]
    rfl
  have hany : ∀ os', os'.Perm os → ∀ o ∈ os, (s.flush.insertAll os').2.cache.cached? o.uid =
      if o ∈ os'.drop (os.length - capacity) then some o else none := by
    intro os' hperm o ho
    rw [← hperm.length_eq]
    refine cached?_insertAll hflush ?_ (hperm.mem_iff.2 ho)
    exact (hperm.map (·.uid)).nodup_iff.2 hlatest.nodup_uids
  by_cases hempty : os = []
  · subst hempty
    refine ⟨?_, List.forall_mem_nil _, hany⟩
    rw [warm, hlast]
    rfl
  · rw [warm_of_last hlast hempty, (insertAll_keeps hflush os).1]
    exact ⟨rfl, hany os (.refl os), hany⟩

/-! ### Two orders and room for one -/

/-- An order of which only its identity and the time of its creation are of interest. -/
def created (uid : String) (createdAt : Timestamp) : Order :=
  { (default : Order) with uid, createdAt }

def older : Order := created "old" ⟨⟨2020, 9, 13⟩, 44800, 0⟩

def newer : Order := created "new" ⟨⟨2023, 11, 14⟩, 80000, 0⟩

theorem latest_two : (OrderStore.ofOrders [older, newer]).Latest 2 [newer, older] := by
  have hstore : OrderStore.ofOrders [older, newer] = (OrderStore.empty.save older).save newer := rfl
  have hne : newer.uid ≠ older.uid := by decide
  have hfind : ∀ uid, (OrderStore.ofOrders [older, newer]).find? uid =
      if newer.uid = uid then some newer else if older.uid = uid then some older else none := by
    intro uid
    rw [hstore, OrderStore.find?_save, OrderStore.find?_save, OrderStore.find?_empty]
  constructor
  case stored =>
    intro o ho
    rcases List.mem_pair.1 ho with rfl | rfl
    · rw [hfind, if_pos rfl]
    · rw [hfind, if_neg hne, if_pos rfl]
  case sorted =>
    have hlater : OrderStore.Precedes newer older := .inl (by decide)
    exact List.pairwise_pair.2 hlater
  case length =>
    have hsize : (OrderStore.ofOrders [older, newer]).size = 2 := by
      rw [hstore, OrderStore.size_save, OrderStore.size_save, OrderStore.find?_save,
        if_neg hne.symm, OrderStore.find?_empty, OrderStore.find?_empty, OrderStore.size_empty]
      rfl
    rw [hsize]
    rfl
  case others =>
    intro uid o ho
    rw [hfind] at ho
    refine .inl (List.mem_pair.2 ?_)
    split at ho
    · exact .inl (Option.some.inj ho).symm
    · split at ho
      · exact .inr (Option.some.inj ho).symm
      · cases ho

/-- The most recent order is counted, and is not cached. -/
theorem latest_driven_out : ∃ cache, OrderCache.build .lru 1 = .ok cache ∧
    let s : Service := { store := .ofOrders [older, newer], cache }
    s.store.Latest 2 [newer, older] ∧ (s.warm 2).1 = .ok 2 ∧
      (s.warm 2).2.cache.cached? newer.uid = none ∧
      (s.warm 2).2.cache.cached? older.uid = some older := by
  have hcache : OrderCache.build .lru 1 =
      .ok (.lru { cache := ⟨∅, .empty, 1⟩, metrics := { backend := "lru" } }) := rfl
  refine ⟨_, hcache, ?_⟩
  intro s
  have hkeeps : s.flush.cache.Keeps 1 [] := (OrderCache.keeps_build hcache).2
  have hlast : s.last 2 = .ok [newer, older] :=
    congrArg Except.ok (((OrderStore.keyed_ofOrders _).latest_last 2).eq latest_two)
  have hheld : ∀ o ∈ [newer, older], (s.warm 2).2.cache.cached? o.uid =
      if o ∈ [newer, older].drop 1 then some o else none := by
    intro o ho
    rw [warm_of_last hlast (List.cons_ne_nil _ _)]
    exact cached?_insertAll hkeeps latest_two.nodup_uids ho
  refine ⟨latest_two, ?_, hheld newer (by simp), hheld older (by simp)⟩
  rw [warm_of_last hlast (List.cons_ne_nil _ _), (insertAll_keeps hkeeps _).1]
  rfl

/-- With the older order put in first, the most recent one stays. -/
theorem latest_stays_if_last : ∃ cache, OrderCache.build .lru 1 = .ok cache ∧
    let s : Service :=
      { store := .ofOrders [older, newer],
        cache := (runCalls OrderCache.call cache [.set older, .get "old"]).2 }
    (s.warm 2).1 = .ok 2 ∧
      (s.flush.insertAll [older, newer]).2.cache.cached? newer.uid = some newer := by
  have hcache : OrderCache.build .lru 1 =
      .ok (.lru { cache := ⟨∅, .empty, 1⟩, metrics := { backend := "lru" } }) := rfl
  refine ⟨_, hcache, ?_⟩
  obtain ⟨os, hlatest, hcount, -, hany⟩ :=
    warm_keeps_oldest hcache [.set older, .get "old"] [older, newer] [] 2
  obtain rfl := hlatest.eq latest_two
  exact ⟨hcount, hany [older, newer] (.swap newer older []) newer (by simp)⟩

end Service

end OrderDesk
