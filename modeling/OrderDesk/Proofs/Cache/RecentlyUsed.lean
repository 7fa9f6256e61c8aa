import Mathlib.Data.List.Basic
import OrderDesk.Cache.Lru
import OrderDesk.Cache.RecentPairs
import OrderDesk.Proofs.Cache.Operations
import OrderDesk.Proofs.Calls

/-!
# The cache of the recently used is a list of pairs

A table of values and a recency list of keys are tied by the handles that the table holds. One
list of items, each a handle with its key and its value, is what both of them say
(`LruCache.Matches`), and every operation does to its pairs what the plain list of recently used
pairs does (`LruCache.run_eq_recentPairs`). So no operation finds the two in disagreement.

Keys are compared by an equivalence that their hash respects, as the table needs it; two equal
keys need not be the same.
-/

namespace OrderDesk

/-! ## Calls and replies -/

inductive CacheCall (α β : Type) where
  | get (key : α)
  | set (key : α) (value : β)
  | remove (key : α)
  | peek (key : α)
  | contains (key : α)
  | keys
  | size

inductive CacheReply (α β : Type) where
  | value (value? : Option β)
  /-- A value was written, and this key was driven out. -/
  | written (evicted? : Option α)
  | flag (b : Bool)
  | keys (keys : List α)
  | size (n : Nat)
  | failed (error : CacheError)

section
variable {α β : Type} [BEq α]

def RecentPairs.call (capacity : Nat) (c : RecentPairs α β) :
    CacheCall α β → CacheReply α β × RecentPairs α β
  | .get k => (.value (c.get k).1, (c.get k).2)
  | .set k v => (.written (c.set capacity k v).1, (c.set capacity k v).2)
  | .remove k => (.value (c.remove k).1, (c.remove k).2)
  | .peek k => (.value (c.peek? k), c)
  | .contains k => (.flag (c.contains k), c)
  | .keys => (.keys c.keys, c)
  | .size => (.size c.length, c)

theorem RecentPairs.beq_of_pair? {c : RecentPairs α β} {k : α} {p : α × β}
    (h : c.pair? k = some p) : p.1 == k :=
  List.find?_some (p := fun q : α × β => q.1 == k) h

theorem RecentPairs.drop_eq_self_of_pair? {c : RecentPairs α β} {k : α} (h : c.pair? k = none) :
    c.drop k = c := by
  refine List.filter_eq_self.2 fun p hp => ?_
  rw [Bool.not_eq_true', ← Bool.not_eq_true]
  exact List.find?_eq_none.1 h p hp

/-- No reply of the plain list is a failure. -/
theorem RecentPairs.failed_notMem_replies {capacity : Nat} {c : RecentPairs α β} {e : CacheError}
    {calls : List (CacheCall α β)} : .failed e ∉ (runCalls (call capacity) c calls).1 := by
  induction calls generalizing c with
  | nil => exact List.not_mem_nil
  | cons k calls ih =>
    intro h
    rcases List.mem_cons.1 h with h | h
    · cases k <;> cases h
    · exact ih h

variable [Hashable α]

def LruCache.call (c : LruCache α β) : CacheCall α β → CacheReply α β × LruCache α β
  | .get k =>
    match c.get k with
    | .ok (v?, c) => (.value v?, c)
    | .error e => (.failed e, c)
  | .set k v =>
    match c.set k v with
    | .ok (evicted?, c) => (.written evicted?, c)
    | .error e => (.failed e, c)
  | .remove k =>
    match c.remove k with
    | .ok (v?, c) => (.value v?, c)
    | .error e => (.failed e, c)
  | .peek k => (.value (c.peek? k), c)
  | .contains k => (.flag (c.contains k), c)
  | .keys => (.keys c.keys, c)
  | .size => (.size c.size, c)

end

/-! ## Items -/

/-- A key with its value and its handle in the recency list. -/
structure LruItem (α β : Type) where
  node : NodeId
  key : α
  value : β

namespace LruItem

variable {α β : Type} {i j : LruItem α β} {items items' as bs : List (LruItem α β)} {k : α}

def listed (i : LruItem α β) : NodeId × α := (i.node, i.key)

def entry (i : LruItem α β) : LruEntry β := ⟨i.value, i.node⟩

def pair (i : LruItem α β) : α × β := (i.key, i.value)

variable [BEq α]

/-- The item of a key. -/
def find (items : List (LruItem α β)) (k : α) : Option (LruItem α β) := items.find? (·.key == k)

/-- The keys of the items differ. -/
def Distinct (items : List (LruItem α β)) : Prop :=
  items.Pairwise fun i j => (i.key == j.key) = false

theorem pair?_map (items : List (LruItem α β)) (k : α) :
    RecentPairs.pair? (items.map pair) k = (find items k).map pair := by
  rw [RecentPairs.pair?, List.find?_map]; rfl

theorem find_cons (i : LruItem α β) (items : List (LruItem α β)) (k : α) :
    find (i :: items) k = if i.key == k then some i else find items k := by
  rw [find, List.find?_cons]
  cases i.key == k <;> rfl

variable [EquivBEq α]

theorem Distinct.perm (h : Distinct items) (hp : items.Perm items') : Distinct items' :=
  (hp.pairwise_iff fun {_ _} hij => by rw [BEq.comm]; exact hij).1 h

theorem Distinct.find_eq_some_iff (h : Distinct items) :
    find items k = some i ↔ i ∈ items ∧ i.key == k := by
  refine ⟨fun hf => ⟨List.mem_of_find?_eq_some hf, ?_⟩, fun ⟨hi, hk⟩ => ?_⟩
  · exact List.find?_some (p := fun j : LruItem α β => j.key == k) hf
  obtain ⟨as, bs, rfl⟩ := List.append_of_mem hi
  refine List.find?_eq_some_iff_append.2 ⟨hk, as, bs, rfl, fun j hj => ?_⟩
  have hji := (List.pairwise_append.1 h).2.2 j hj i List.mem_cons_self
  rw [BEq.congr_right (BEq.symm hk), hji]; rfl

/-- Which item a key has does not depend on the order. -/
theorem Distinct.find_perm (h : Distinct items) (hp : items.Perm items') :
    find items' k = find items k := by
  ext i
  rw [h.find_eq_some_iff, (h.perm hp).find_eq_some_iff, hp.mem_iff]

/-- Without the item of a key, no item has that key. -/
theorem Distinct.filter_eq (h : Distinct (as ++ i :: bs)) (hk : i.key == k) :
    (as ++ i :: bs).filter (fun j => !(j.key == k)) = as ++ bs := by
  obtain ⟨has, hbs, hab⟩ := List.pairwise_append.1 h
  rw [List.filter_append, List.filter_cons_of_neg (by simp [hk])]
  congr 1
  · refine List.filter_eq_self.2 fun j hj => ?_
    rw [BEq.congr_right (BEq.symm hk), hab j hj i List.mem_cons_self]; rfl
  · refine List.filter_eq_self.2 fun j hj => ?_
    rw [BEq.congr_right (BEq.symm hk), BEq.comm, (List.pairwise_cons.1 hbs).1 j hj]; rfl

theorem Distinct.drop_eq (h : Distinct (as ++ i :: bs)) (hk : i.key == k) :
    RecentPairs.drop ((as ++ i :: bs).map pair) k = (as ++ bs).map pair := by
  rw [RecentPairs.drop, List.filter_map, ← h.filter_eq hk]; rfl

end LruItem

/-! ## The cache -/

namespace LruCache

open LruItem

variable {α β : Type} [BEq α] [Hashable α] {c : LruCache α β} {i : LruItem α β} {k : α} {v : β}
  {items as bs : List (LruItem α β)}

/-- The table and the recency list of a cache say the same: the items, the most recent first. -/
structure Matches (c : LruCache α β) (items : List (LruItem α β)) : Prop where
  recency : c.recency.Holds (items.map listed) []
  entries : ∀ k, c.entries[k]? = (find items k).map entry
  size : c.entries.size = items.length
  distinct : Distinct items

theorem Matches.new (capacity : Nat) :
    Matches (α := α) (β := β) ⟨∅, .empty, capacity⟩ [] where
  recency := .empty
  entries _ := Std.HashMap.getElem?_empty
  size := Std.HashMap.size_empty
  distinct := List.Pairwise.nil

theorem Matches.peek? (h : Matches c items) (k : α) :
    c.peek? k = RecentPairs.peek? (items.map pair) k := by
  rw [LruCache.peek?, h.entries, RecentPairs.peek?, pair?_map, Option.map_map, Option.map_map]; rfl

theorem Matches.keys (h : Matches c items) : c.keys = RecentPairs.keys (items.map pair) := by
  rw [LruCache.keys, h.recency.toList, RecentPairs.keys, List.map_map, List.map_map]; rfl

section
variable [EquivBEq α]

/-- The key of an item stands for any equal one. -/
theorem Matches.split (h : Matches c items) (hf : find items k = some i) :
    ∃ as bs, items = as ++ i :: bs ∧ i.key == k := by
  obtain ⟨hi, hk⟩ := h.distinct.find_eq_some_iff.1 hf
  obtain ⟨as, bs, rfl⟩ := List.append_of_mem hi
  exact ⟨as, bs, rfl, hk⟩

/-- An item that is used comes to the front. -/
theorem Matches.touch (h : Matches c (as ++ i :: bs)) :
    ∃ recency, c.touch i.node = .ok recency ∧ Matches { c with recency } (i :: (as ++ bs)) := by
  have hr := h.recency
  rw [List.map_append, List.map_cons] at hr
  obtain ⟨recency, he, hr, -⟩ := hr.moveNodeToFront
  have hp : (as ++ i :: bs).Perm (i :: (as ++ bs)) := List.perm_middle
  refine ⟨recency, ?_, ?_, fun k => ?_, h.size.trans hp.length_eq, h.distinct.perm hp⟩
  · rw [LruCache.touch, show i.node = i.listed.1 from rfl, he]
  · rw [List.map_cons, List.map_append]; exact hr
  · rw [h.distinct.find_perm hp]; exact h.entries k

end

variable [EquivBEq α] [LawfulHashable α]

theorem Matches.contains (h : Matches c items) (k : α) :
    c.contains k = RecentPairs.contains (items.map pair) k := by
  rw [LruCache.contains, Std.HashMap.contains_eq_isSome_getElem?, h.entries, RecentPairs.contains,
    pair?_map, Option.isSome_map, Option.isSome_map]

/-- The front item gets another value. -/
theorem Matches.write (h : Matches c (i :: bs)) (hk : i.key == k) (v : β) :
    Matches { c with entries := c.entries.insert k { i.entry with value := v } }
      ({ i with value := v } :: bs) := by
  have hmem : k ∈ c.entries := by
    rw [← Std.HashMap.isSome_getElem?_iff_mem, h.entries, find_cons, if_pos hk]; rfl
  refine ⟨h.recency, fun k' => ?_, ?_, List.pairwise_cons.2 (List.pairwise_cons.1 h.distinct)⟩
  · change (c.entries.insert k _)[k']? = _
    rw [Std.HashMap.getElem?_insert, h.entries, find_cons, find_cons, ← BEq.congr_left hk]
    cases i.key == k' <;> rfl
  · change (c.entries.insert k _).size = _
    rw [Std.HashMap.size_insert, if_pos hmem, h.size]; rfl

/-- The item of a key goes. -/
theorem Matches.erase {recency : RecencyList α} (h : Matches c (as ++ i :: bs)) (hk : i.key == k)
    (hr : recency.Holds ((as ++ bs).map listed) []) :
    Matches { c with recency, entries := c.entries.erase k } (as ++ bs) := by
  have hp : (as ++ i :: bs).Perm (i :: (as ++ bs)) := List.perm_middle
  have hd := h.distinct.perm hp
  have hlen := hp.length_eq
  have hfind : ∀ k', c.entries[k']? = (find (i :: (as ++ bs)) k').map entry := fun k' => by
    rw [h.entries, h.distinct.find_perm hp]
  have hmem : k ∈ c.entries := by
    rw [← Std.HashMap.isSome_getElem?_iff_mem, hfind, find_cons, if_pos hk]; rfl
  refine ⟨hr, fun k' => ?_, ?_, (List.pairwise_cons.1 hd).2⟩
  · change (c.entries.erase k)[k']? = _
    rw [Std.HashMap.getElem?_erase, hfind, ← BEq.congr_left hk, find_cons]
    cases hk' : i.key == k' with
    | true =>
      have hnone : find (as ++ bs) k' = none := List.find?_eq_none.2 fun j hj => by
        rw [← BEq.congr_right hk', BEq.comm, (List.pairwise_cons.1 hd).1 j hj]
        exact Bool.false_ne_true
      rw [hnone]; rfl
    | false => rfl
  · change (c.entries.erase k).size = _
    rw [Std.HashMap.size_erase, if_pos hmem, h.size, hp.length_eq]; rfl

/-- A new key comes to the front. -/
theorem Matches.insert {id : NodeId} {recency : RecencyList α} (h : Matches c items)
    (hf : find items k = none) (hr : recency.Holds ((id, k) :: items.map listed) []) (v : β) :
    Matches { c with recency, entries := c.entries.insert k ⟨v, id⟩ } (⟨id, k, v⟩ :: items) := by
  have hmem : k ∉ c.entries := by
    rw [← Std.HashMap.isSome_getElem?_iff_mem, h.entries, hf]
    exact Bool.false_ne_true
  refine ⟨hr, fun k' => ?_, ?_, List.pairwise_cons.2 ⟨fun j hj => ?_, h.distinct⟩⟩
  · change (c.entries.insert k _)[k']? = _
    rw [Std.HashMap.getElem?_insert, h.entries, find_cons]
    cases k == k' <;> rfl
  · change (c.entries.insert k _).size = _
    rw [Std.HashMap.size_insert, if_neg hmem, h.size]; rfl
  · rw [BEq.comm]
    exact Bool.eq_false_iff.2 (List.find?_eq_none.1 hf j hj)

/-- The last item is driven out. -/
theorem Matches.evict (h : Matches c (as ++ [i])) :
    ∃ recency, c.recency.removeLast = .ok (i.key, recency) ∧ c.entries.contains i.key ∧
      Matches { c with recency, entries := c.entries.erase i.key } as := by
  have hr := h.recency
  rw [List.map_append] at hr
  obtain ⟨recency, he, hr, -⟩ := hr.removeLast
  rw [← List.append_nil (as.map listed), ← List.map_nil, ← List.map_append] at hr
  have hm := h.erase BEq.rfl hr
  rw [List.append_nil] at hm
  refine ⟨recency, he, ?_, hm⟩
  change c.contains i.key = true
  rw [h.contains, RecentPairs.contains, pair?_map, Option.isSome_map]
  rw [h.distinct.find_eq_some_iff.2 ⟨List.mem_append_right _ List.mem_cons_self, BEq.rfl⟩]; rfl

/-! ## The plain list of pairs -/

/-- The cache holds these pairs, the most recent first, and may hold `capacity` of them. -/
def Refines (capacity : Nat) (c : LruCache α β) (ps : RecentPairs α β) : Prop :=
  ∃ items, c.Matches items ∧ ps = items.map pair ∧ items.length ≤ capacity ∧
    c.capacity = capacity

section
variable {capacity : Nat} {ps : RecentPairs α β}

omit [EquivBEq α] [LawfulHashable α] in
theorem Refines.new (capacity : Nat) :
    Refines (α := α) (β := β) capacity ⟨∅, .empty, capacity⟩ [] :=
  ⟨[], .new capacity, rfl, Nat.zero_le _, rfl⟩

omit [EquivBEq α] [LawfulHashable α] in
theorem Refines.length_le (h : Refines capacity c ps) : ps.length ≤ capacity := by
  obtain ⟨items, -, rfl, hle, -⟩ := h
  rwa [List.length_map]

omit [EquivBEq α] [LawfulHashable α] in
theorem Refines.distinct (h : Refines capacity c ps) :
    ps.Pairwise fun p q => (p.1 == q.1) = false := by
  obtain ⟨items, hm, rfl, -⟩ := h
  rw [List.pairwise_map]
  exact hm.distinct

omit [EquivBEq α] [LawfulHashable α] in
theorem Refines.peek? (h : Refines capacity c ps) (k : α) : c.peek? k = ps.peek? k := by
  obtain ⟨items, hm, rfl, -⟩ := h
  exact hm.peek? k

omit [EquivBEq α] [LawfulHashable α] in
theorem Refines.keys (h : Refines capacity c ps) : c.keys = ps.keys := by
  obtain ⟨items, hm, rfl, -⟩ := h
  exact hm.keys

omit [EquivBEq α] [LawfulHashable α] in
theorem Refines.size (h : Refines capacity c ps) : c.size = ps.length := by
  obtain ⟨items, hm, rfl, -⟩ := h
  exact hm.size.trans (List.length_map _).symm

theorem Refines.contains (h : Refines capacity c ps) (k : α) : c.contains k = ps.contains k := by
  obtain ⟨items, hm, rfl, -⟩ := h
  exact hm.contains k

omit [LawfulHashable α] in
theorem Refines.get (h : Refines capacity c ps) (k : α) :
    ∃ c', c.get k = .ok ((ps.get k).1, c') ∧ Refines capacity c' (ps.get k).2 := by
  obtain ⟨items, hm, rfl, hb, hc⟩ := h
  rw [LruCache.get, hm.entries, RecentPairs.get, pair?_map]
  cases hf : find items k with
  | none => exact ⟨c, rfl, items, hm, rfl, hb, hc⟩
  | some i =>
    obtain ⟨as, bs, rfl, hk⟩ := hm.split hf
    obtain ⟨recency, he, hm'⟩ := hm.touch
    refine ⟨{ c with recency }, ?_, _, hm', ?_, ?_, hc⟩
    · simp only [Option.map_some, entry, he, ok_bind]; rfl
    · exact congrArg (i.pair :: ·) (hm.distinct.drop_eq hk)
    · rwa [← List.perm_middle.length_eq]

theorem Refines.set (h : Refines capacity c ps) (k : α) (v : β) :
    ∃ c', c.set k v = .ok ((ps.set capacity k v).1, c') ∧
      Refines capacity c' (ps.set capacity k v).2 := by
  obtain ⟨items, hm, rfl, hb, rfl⟩ := h
  rw [LruCache.set, hm.entries, RecentPairs.set, pair?_map]
  cases hf : find items k with
  | some i =>
    obtain ⟨as, bs, rfl, hk⟩ := hm.split hf
    obtain ⟨recency, he, hm'⟩ := hm.touch
    refine ⟨_, ?_, _, hm'.write hk v, ?_, ?_, rfl⟩
    · simp only [Option.map_some, entry, he, ok_bind]; rfl
    · exact congrArg ((i.key, v) :: ·) (hm.distinct.drop_eq hk)
    · rwa [List.perm_middle.length_eq] at hb
  | none =>
    obtain ⟨id, recency, he, hr, -⟩ := hm.recency.pushFront k
    have hm' := hm.insert hf hr v
    have hsize : (c.entries.insert k ⟨v, id⟩).size = items.length + 1 := hm'.size
    simp only [Option.map_none, he, hsize, List.length_cons, List.length_map]
    by_cases hle : items.length + 1 ≤ c.capacity
    · rw [if_pos hle, if_pos hle]
      exact ⟨_, rfl, _, hm', rfl, hle, rfl⟩
    · rw [if_neg hle, if_neg hle]
      -- one item too many: the last of them goes
      obtain ⟨as, z, heq⟩ : ∃ as z, (⟨id, k, v⟩ :: items : List (LruItem α β)) = as ++ [z] :=
        ⟨_, _, (List.dropLast_concat_getLast (List.cons_ne_nil _ _)).symm⟩
      have hlen : items.length + 1 = as.length + 1 := by
        rw [← List.length_cons (a := (⟨id, k, v⟩ : LruItem α β)), heq, List.length_append]; rfl
      have hpairs : (k, v) :: items.map pair = as.map pair ++ [z.pair] := by
        rw [← List.map_singleton, ← List.map_append, ← heq]; rfl
      rw [heq] at hm'
      obtain ⟨recency', he', hcontains, hm''⟩ := hm'.evict
      refine ⟨_, ?_, as, hm'', ?_, by omega, rfl⟩
      · rw [hpairs, List.getLast?_concat, he']
        exact if_pos hcontains
      · rw [hpairs, List.dropLast_concat]

theorem Refines.remove (h : Refines capacity c ps) (k : α) :
    ∃ c', c.remove k = .ok ((ps.remove k).1, c') ∧ Refines capacity c' (ps.remove k).2 := by
  obtain ⟨items, hm, rfl, hb, hc⟩ := h
  rw [LruCache.remove, hm.entries, RecentPairs.remove, RecentPairs.peek?, pair?_map]
  cases hf : find items k with
  | none =>
    refine ⟨c, rfl, items, hm, RecentPairs.drop_eq_self_of_pair? ?_, hb, hc⟩
    rw [pair?_map, hf]
    rfl
  | some i =>
    obtain ⟨as, bs, rfl, hk⟩ := hm.split hf
    have hr := hm.recency
    rw [List.map_append, List.map_cons] at hr
    obtain ⟨recency, he, hr, -⟩ := hr.removeNode
    rw [← List.map_append] at hr
    refine ⟨_, ?_, _, hm.erase hk hr, hm.distinct.drop_eq hk, ?_, hc⟩
    · simp only [Option.map_some, entry, show i.node = i.listed.1 from rfl, he]; rfl
    · rw [List.perm_middle.length_eq] at hb
      exact Nat.le_of_succ_le hb

theorem Refines.call (h : Refines capacity c ps) (k : CacheCall α β) :
    (c.call k).1 = (ps.call capacity k).1 ∧
      Refines capacity (c.call k).2 (ps.call capacity k).2 := by
  cases k with
  | get k =>
    obtain ⟨c', he, h'⟩ := h.get k
    rw [LruCache.call, he]
    exact ⟨rfl, h'⟩
  | set k v =>
    obtain ⟨c', he, h'⟩ := h.set k v
    rw [LruCache.call, he]
    exact ⟨rfl, h'⟩
  | remove k =>
    obtain ⟨c', he, h'⟩ := h.remove k
    rw [LruCache.call, he]
    exact ⟨rfl, h'⟩
  | peek k => exact ⟨congrArg CacheReply.value (h.peek? k), h⟩
  | contains k => exact ⟨congrArg CacheReply.flag (h.contains k), h⟩
  | keys => exact ⟨congrArg CacheReply.keys h.keys, h⟩
  | size => exact ⟨congrArg CacheReply.size h.size, h⟩

/-- **A cache of the recently used is a list of pairs**: for every capacity, every sequence of
calls on a new cache is answered as by the list of recently used pairs, which has distinct keys
and stays within the capacity. No call fails. -/
theorem run_eq_recentPairs {capacity : Nat} (h : 1 ≤ capacity) :
    ∃ c : LruCache α β, new? capacity = .ok c ∧ ∀ calls : List (CacheCall α β),
      (runCalls call c calls).1 = (runCalls (RecentPairs.call capacity) [] calls).1 ∧
      (∀ e, .failed e ∉ (runCalls call c calls).1) ∧
      (runCalls (RecentPairs.call capacity) ([] : RecentPairs α β) calls).2.length ≤ capacity ∧
      (runCalls (RecentPairs.call capacity) ([] : RecentPairs α β) calls).2.Pairwise
        fun p q => (p.1 == q.1) = false := by
  refine ⟨⟨∅, .empty, capacity⟩, if_neg (Nat.ne_of_gt h), fun calls => ?_⟩
  obtain ⟨hreplies, items, hm, hps, hb, -⟩ :=
    runCalls_eq (R := Refines capacity) (fun k h => h.call k) (.new capacity) calls
  refine ⟨hreplies, fun e he => ?_, ?_, ?_⟩
  · rw [hreplies] at he
    exact RecentPairs.failed_notMem_replies he
  · rw [hps, List.length_map]
    exact hb
  · rw [hps, List.pairwise_map]
    exact hm.distinct

/-- A hit, an eviction of the key that was not used, a removal, an overwriting. -/
theorem run_of_capacity_two : 1 ≤ 2 ∧ ∃ c : LruCache Nat String, new? 2 = .ok c ∧
    (runCalls call c [.set 1 "a", .set 2 "b", .get 1, .set 3 "c", .peek 2, .remove 1, .set 4 "d",
      .set 3 "e", .get 4, .set 5 "f", .keys, .size]).1 =
    [.written none, .written none, .value (some "a"), .written (some 2), .value none,
      .value (some "a"), .written none, .written none, .value (some "d"), .written (some 3),
      .keys [5, 4], .size 2] := by
  obtain ⟨c, hc, h⟩ := run_eq_recentPairs (α := Nat) (β := String) (show 1 ≤ 2 by decide)
  exact ⟨by decide, c, hc, (h _).1.trans rfl⟩

end

end LruCache

end OrderDesk
