import Mathlib.Data.List.Forall2
import OrderDesk.Proofs.Cache.Entries

/-!
# The working set of a cache

Which keys a cache holds can be told from the history of its calls. A key is touched when it is
written, and when a read finds it. The cache holds the keys that were touched last, as many as it
may: a key is held as long as fewer than that many others were touched since (`WorkingSet`).

Whether a read touches its key depends on what the cache holds at that time, hence the law is kept
call by call (`RecentPairs.Tracks.call`) and holds after any of them (`LruCache.run_workingSet`).
Without duplicates and with the latest touch first, the touched keys begin with those that the cache
holds; what a call does to the one list it does to the other.
-/

namespace OrderDesk

/-! ## Lists without duplicates -/

section
variable {α : Type} {l : List α} {k : α} {n : Nat}

theorem takeWhile_filter {p q : α → Bool} (h : ∀ x ∈ l, q x = false → p x) :
    (l.takeWhile p).filter q = (l.filter q).takeWhile p := by
  induction l with
  | nil => rfl
  | cons x l ih =>
    have ih := ih fun y hy => h y (List.mem_cons_of_mem _ hy)
    cases hq : q x with
    | false => simp [hq, h x List.mem_cons_self hq, ih]
    | true => cases hp : p x <;> simp [hp, hq, ih]

variable [BEq α]

/-- To erase duplicates is to keep the first element and to go on without its equals. -/
theorem eraseDups_induction {motive : List α → Prop} (nil : motive [])
    (cons : ∀ x l, motive (l.filter fun y => !(y == x)) → motive (x :: l)) (l : List α) :
    motive l := by
  induction hn : l.length using Nat.strongRecOn generalizing l with
  | _ n ih =>
    cases l with
    | nil => exact nil
    | cons x l =>
      have hlt : (l.filter fun y => !(y == x)).length < n :=
        hn ▸ Nat.lt_succ_of_le (List.length_filter_le _ _)
      exact cons x l (ih _ hlt _ rfl)

/-- An element is among the first ones if few come before it. -/
theorem exists_mem_take (l : List α) (k : α) (n : Nat) :
    (∃ x ∈ l.take n, x == k) ↔
      (∃ x ∈ l, x == k) ∧ (l.takeWhile fun x => !(x == k)).length < n := by
  induction l generalizing n with
  | nil => simp
  | cons x l ih =>
    cases n with
    | zero => simp
    | succ n =>
      rw [List.take_succ_cons, List.exists_mem_cons_iff, List.exists_mem_cons_iff, ih]
      cases hx : x == k <;> simp [hx]

/-- Nothing is lost of the first ones where the element is not among them. -/
theorem take_filter_of_forall (h : ∀ x ∈ l.take n, (x == k) = false) :
    (l.filter fun x => !(x == k)).take n = l.take n := by
  induction l generalizing n with
  | nil => rfl
  | cons x l ih =>
    cases n with
    | zero => rfl
    | succ n =>
      have hx : (x == k) = false := h x List.mem_cons_self
      have ih := ih fun y hy => h y (List.mem_cons_of_mem _ hy)
      simp [hx, ih]

variable [EquivBEq α]

/-- One of the first ones is lost where the element is among them. -/
theorem take_filter_of_exists (hd : l.Pairwise fun x y => (x == y) = false)
    (h : ∃ x ∈ l.take (n + 1), x == k) :
    (l.filter fun x => !(x == k)).take n = (l.take (n + 1)).filter fun x => !(x == k) := by
  induction l generalizing n with
  | nil => simp
  | cons x l ih =>
    rw [List.pairwise_cons] at hd
    rw [List.take_succ_cons, List.exists_mem_cons_iff] at h
    cases hx : x == k with
    | true =>
      have hrest : ∀ y ∈ l, (!(y == k)) = true := by
        intro y hy
        rw [Bool.not_eq_true', BEq.comm, ← BEq.congr_left hx]
        exact hd.1 y hy
      have hfirst : ∀ y ∈ l.take n, (!(y == k)) = true := fun y hy =>
        hrest y (List.mem_of_mem_take hy)
      simp [hx, List.filter_eq_self.2 hrest, List.filter_eq_self.2 hfirst]
    | false =>
      have h := h.resolve_left (by simp [hx])
      cases n with
      | zero => simp at h
      | succ n => simp [hx, ih hd.2 h]

/-- Lists that agree element by element have the same elements. -/
theorem exists_mem_congr {xs ys : List α} (h : List.Forall₂ (fun a b => a == b) xs ys) (k : α) :
    (∃ x ∈ xs, x == k) ↔ ∃ y ∈ ys, y == k := by
  induction h with
  | nil => simp
  | cons hxy _ ih =>
    rw [List.exists_mem_cons_iff, List.exists_mem_cons_iff, BEq.congr_left hxy]
    exact or_congr_right ih

theorem filter_eraseDups (l : List α) (k : α) :
    l.eraseDups.filter (fun x => !(x == k)) = (l.filter fun x => !(x == k)).eraseDups := by
  induction l using eraseDups_induction with
  | nil => rfl
  | cons x l ih =>
    have hcomm : (l.filter fun y => !(y == x)).filter (fun y => !(y == k)) =
        (l.filter fun y => !(y == k)).filter fun y => !(y == x) := by
      simp only [List.filter_filter, Bool.and_comm]
    rw [List.eraseDups_cons, List.filter_cons, ih, hcomm, List.filter_cons]
    split
    · rw [List.eraseDups_cons]
    · rename_i hx
      have hx : x == k := by simpa using hx
      have hsame : ∀ y : α, (y == x) = (y == k) := fun y => BEq.congr_right hx
      simp only [hsame, List.filter_filter, Bool.and_self]

theorem pairwise_eraseDups (l : List α) : l.eraseDups.Pairwise fun x y => (x == y) = false := by
  induction l using eraseDups_induction with
  | nil => exact .nil
  | cons x l ih =>
    rw [List.eraseDups_cons]
    refine .cons ?_ ih
    intro y hy
    rw [← filter_eraseDups, List.mem_filter, Bool.not_eq_true'] at hy
    rw [BEq.comm, hy.2]

theorem exists_mem_eraseDups (l : List α) (k : α) :
    (∃ x ∈ l.eraseDups, x == k) ↔ ∃ x ∈ l, x == k := by
  induction l using eraseDups_induction with
  | nil => simp
  | cons x l ih =>
    rw [List.eraseDups_cons, List.exists_mem_cons_iff, List.exists_mem_cons_iff, ih]
    cases hx : x == k with
    | true => simp
    | false =>
      have hne : ∀ y, y == k → (y == x) = false := by
        intro y hy
        rw [BEq.congr_left hy, BEq.comm, hx]
      simp only [List.mem_filter, Bool.not_eq_true', Bool.false_eq_true, false_or]
      exact exists_congr fun y => and_congr_left fun hy => and_iff_left (hne y hy)

/-- The distinct elements before an element are those before it in the list without duplicates. -/
theorem eraseDups_takeWhile (l : List α) (k : α) :
    (l.takeWhile fun x => !(x == k)).eraseDups = l.eraseDups.takeWhile fun x => !(x == k) := by
  induction l using eraseDups_induction with
  | nil => rfl
  | cons x l ih =>
    rw [List.eraseDups_cons, List.takeWhile_cons, List.takeWhile_cons, ← ih]
    split
    · rw [List.eraseDups_cons, takeWhile_filter]
      intro y _ hy
      rename_i hx _
      rw [Bool.not_eq_false'] at hy
      rwa [BEq.congr_left hy]
    · rfl

theorem take_eraseDups_cons (k : α) (l : List α) (n : Nat) :
    (k :: l).eraseDups.take (n + 1) =
      k :: (l.eraseDups.filter fun x => !(x == k)).take n := by
  rw [List.eraseDups_cons, List.take_succ_cons, filter_eraseDups]

/-- In a list without duplicates, the equals of the first ones are the first ones. -/
theorem filter_eq_take (hd : l.Pairwise fun x y => (x == y) = false) {f : α → Bool}
    (hf : ∀ x, f x ↔ ∃ y ∈ l.take n, y == x) : l.filter f = l.take n := by
  have hsplit : l.filter f = (l.take n).filter f ++ (l.drop n).filter f := by
    rw [← List.filter_append, List.take_append_drop]
  have hfirst : (l.take n).filter f = l.take n := by
    apply List.filter_eq_self.2
    intro x hx
    exact (hf x).2 ⟨x, hx, BEq.rfl⟩
  have hrest : (l.drop n).filter f = [] := by
    apply List.filter_eq_nil_iff.2
    intro x hx h
    obtain ⟨y, hy, hyx⟩ := (hf x).1 h
    rw [← List.take_append_drop n l, List.pairwise_append] at hd
    rw [hd.2.2 y hy x hx] at hyx
    cases hyx
  rw [hsplit, hfirst, hrest, List.append_nil]

end

/-! ## The history of a cache -/

section
variable {α β : Type}

namespace CacheCall

/-- The key that a call touches: the one it writes or finds. -/
def touched? : CacheCall α β → CacheReply α β → Option α
  | .set k _, _ => some k
  | .get k, .value (some _) => some k
  | _, _ => none

/-- It takes no key out. -/
def keeps : CacheCall α β → Bool
  | .remove _ => false
  | _ => true

/-- The value that a call writes under a key. -/
def written? [BEq α] (k : α) : CacheCall α β → Option β
  | .set k' v => if k' == k then some v else none
  | _ => none

end CacheCall

/-- The keys that calls touched, given their replies; the latest one first. -/
def touches : List (CacheCall α β) → List (CacheReply α β) → List α
  | call :: calls, reply :: replies => touches calls replies ++ (call.touched? reply).toList
  | _, _ => []

variable [BEq α]

/-- The value that was written last under a key, where the latest call comes first. -/
def lastWritten? (past : List (CacheCall α β)) (k : α) : Option β := past.findSome? (·.written? k)

/-- The keys that were touched after the last touch of a key, where the latest one comes first. -/
def touchedSince (touches : List α) (k : α) : List α := touches.takeWhile fun t => !(t == k)

theorem lastWritten?_set (past : List (CacheCall α β)) {k k' : α} (v : β) (h : k == k') :
    lastWritten? (.set k v :: past) k' = some v := by
  simp [lastWritten?, CacheCall.written?, h]

section
variable [EquivBEq α]

theorem lastWritten?_set_of_ne (past : List (CacheCall α β)) {k k' : α} (v : β)
    (h : (k' == k) = false) : lastWritten? (.set k v :: past) k' = lastWritten? past k' := by
  rw [BEq.comm] at h
  simp [lastWritten?, CacheCall.written?, h]

theorem lastWritten?_congr {past : List (CacheCall α β)} {k k' : α} (h : k == k') :
    lastWritten? past k = lastWritten? past k' := by
  rw [lastWritten?, lastWritten?]
  congr 1
  funext call
  cases call with
  | set x v => simp only [CacheCall.written?, BEq.congr_right h]
  | _ => rfl

end

namespace RecentPairs

/-! ## What a call keeps -/

/-- The pairs are those of the keys that were touched last, with the values written last. -/
structure Tracks (capacity : Nat) (past : List (CacheCall α β)) (touches : List α)
    (ps : RecentPairs α β) : Prop where
  keys : List.Forall₂ (fun a b => a == b) ps.keys (touches.eraseDups.take capacity)
  values : ∀ p ∈ ps, lastWritten? past p.1 = some p.2

variable {capacity n : Nat} {past : List (CacheCall α β)} {touches : List α} {ps : RecentPairs α β}
  {p : α × β} {k : α} {v : β}

theorem Tracks.new (capacity : Nat) : Tracks (α := α) (β := β) capacity [] [] [] where
  keys := by simp [RecentPairs.keys]
  values p hp := nomatch hp

theorem mem_of_pair? (h : ps.pair? k = some p) : p ∈ ps ∧ p.1 == k :=
  ⟨List.mem_of_find?_eq_some h, beq_of_pair? h⟩

theorem keys_drop (ps : RecentPairs α β) (k : α) :
    (ps.drop k).keys = ps.keys.filter fun x => !(x == k) := by
  rw [RecentPairs.keys, RecentPairs.keys, drop, List.filter_map]
  rfl

theorem Tracks.length_le (h : Tracks capacity past touches ps) : ps.length ≤ capacity := by
  have hlen := h.keys.length_eq
  rw [RecentPairs.keys, List.length_map] at hlen
  rw [hlen]
  exact List.length_take_le _ _

/-- A new key that drives out the last pair leaves the first ones. -/
theorem set_of_pair?_eq_none (h : ps.pair? k = none) (hlen : ps.length ≤ n + 1) (v : β) :
    (ps.set (n + 1) k v).2 = (k, v) :: ps.take n := by
  rw [RecentPairs.set, h]
  dsimp only
  split
  · rename_i hle
    rw [List.length_cons] at hle
    rw [List.take_of_length_le (by omega)]
  · rename_i hle
    rw [List.length_cons] at hle
    have hlen : ps.length = n + 1 := by omega
    rw [List.dropLast_eq_take, List.length_cons, hlen]
    rfl

theorem length_drop_lt (h : ps.pair? k = some p) : (ps.drop k).length < ps.length := by
  obtain ⟨hmem, hk⟩ := mem_of_pair? h
  exact List.length_filter_lt_length_iff_exists.2 ⟨p, hmem, by simp [hk]⟩

variable [EquivBEq α]

/-- Setting a pair puts it in front of the others and drops what is too much. -/
theorem exists_set_eq_take (h : ps.length ≤ capacity) (k : α) (v : β) :
    ∃ k', k' == k ∧ (ps.set capacity k v).2 = ((k', v) :: ps.drop k).take capacity := by
  cases hp : ps.pair? k with
  | some p =>
    refine ⟨p.1, (mem_of_pair? hp).2, ?_⟩
    rw [set, hp, List.take_of_length_le (Nat.le_trans (length_drop_lt hp) h)]
  | none =>
    refine ⟨k, BEq.rfl, ?_⟩
    rw [drop_eq_self_of_pair? hp]
    cases capacity with
    | zero =>
      rw [List.length_eq_zero_iff.1 (Nat.le_zero.1 h)]
      rfl
    | succ n => exact set_of_pair?_eq_none hp h v

/-- A key is held iff it is one of those that were touched last. -/
theorem Tracks.exists_key (h : Tracks capacity past touches ps) (k : α) :
    (∃ p ∈ ps, p.1 == k) ↔ ∃ t ∈ touches.eraseDups.take capacity, t == k := by
  have hkeys : (∃ p ∈ ps, p.1 == k) ↔ ∃ x ∈ ps.keys, x == k := by
    simp [RecentPairs.keys]
  rw [hkeys]
  exact exists_mem_congr h.keys k

/-- The first key that was touched now stands for one that is held. -/
theorem Tracks.forall₂_hit (h : Tracks (n + 1) past touches ps) (hp : ps.pair? k = some p) :
    List.Forall₂ (fun a b => a == b) (p.1 :: (ps.drop k).keys)
      ((k :: touches).eraseDups.take (n + 1)) := by
  obtain ⟨hmem, hk⟩ := mem_of_pair? hp
  have hheld := (h.exists_key k).1 ⟨p, hmem, hk⟩
  rw [take_eraseDups_cons, keys_drop, take_filter_of_exists (pairwise_eraseDups touches) hheld]
  refine .cons hk (List.rel_filter ?_ h.keys)
  intro x y hxy
  simp only [BEq.congr_left hxy]

theorem Tracks.get_hit (h : Tracks (n + 1) past touches ps) (hp : ps.pair? k = some p) :
    Tracks (n + 1) (.get k :: past) (k :: touches) (p :: ps.drop k) where
  keys := h.forall₂_hit hp
  values q hq := by
    apply h.values q
    rcases List.mem_cons.1 hq with rfl | hq
    · exact (mem_of_pair? hp).1
    · exact List.mem_of_mem_filter hq

theorem Tracks.set_hit (h : Tracks (n + 1) past touches ps) (hp : ps.pair? k = some p) (v : β) :
    Tracks (n + 1) (.set k v :: past) (k :: touches) ((p.1, v) :: ps.drop k) := by
  have hkeys := h.forall₂_hit hp
  refine ⟨hkeys, ?_⟩
  intro q hq
  rcases List.mem_cons.1 hq with rfl | hq
  · exact lastWritten?_set past v (BEq.symm (mem_of_pair? hp).2)
  · obtain ⟨hq, hne⟩ := List.mem_filter.1 hq
    rw [Bool.not_eq_true'] at hne
    rw [lastWritten?_set_of_ne past v hne]
    exact h.values q hq

theorem Tracks.set_miss (h : Tracks (n + 1) past touches ps) (hp : ps.pair? k = none) (v : β) :
    Tracks (n + 1) (.set k v :: past) (k :: touches) (ps.set (n + 1) k v).2 := by
  have hnone : ∀ q ∈ ps, (q.1 == k) = false := by
    intro q hq
    exact Bool.eq_false_iff.2 (List.find?_eq_none.1 hp q hq)
  have hfirst : ∀ t ∈ touches.eraseDups.take n, (t == k) = false := by
    intro t ht
    rw [Bool.eq_false_iff]
    intro hk
    have htake : touches.eraseDups.take n <+: touches.eraseDups.take (n + 1) :=
      List.take_prefix_take_left (Nat.le_succ n)
    obtain ⟨q, hq, hqk⟩ := (h.exists_key k).2 ⟨t, htake.subset ht, hk⟩
    rw [hnone q hq] at hqk
    cases hqk
  rw [set_of_pair?_eq_none hp h.length_le]
  constructor
  · rw [take_eraseDups_cons, take_filter_of_forall hfirst, RecentPairs.keys, List.map_cons,
      List.map_take]
    have hkeys := List.forall₂_take n h.keys
    rw [List.take_take, Nat.min_eq_left (Nat.le_succ n)] at hkeys
    exact .cons BEq.rfl hkeys
  · intro q hq
    rcases List.mem_cons.1 hq with rfl | hq
    · exact lastWritten?_set past v BEq.rfl
    · have hq := List.mem_of_mem_take hq
      rw [lastWritten?_set_of_ne past v (hnone q hq)]
      exact h.values q hq

/-- Every call but a removal keeps the pairs to those touched last. -/
theorem Tracks.call (h : Tracks (n + 1) past touches ps) (call : CacheCall α β)
    (hkeeps : call.keeps) :
    Tracks (n + 1) (call :: past)
      ((call.touched? (ps.call (n + 1) call).1).toList ++ touches) (ps.call (n + 1) call).2 := by
  cases call with
  | get k =>
    rw [RecentPairs.call, RecentPairs.get]
    cases hp : ps.pair? k with
    | some p => exact h.get_hit hp
    | none => exact ⟨h.keys, h.values⟩
  | set k v =>
    rw [RecentPairs.call]
    cases hp : ps.pair? k with
    | some p =>
      rw [RecentPairs.set, hp]
      exact h.set_hit hp v
    | none => exact h.set_miss hp v
  | remove k => cases hkeeps
  | peek k | contains k | keys | size => exact ⟨h.keys, h.values⟩

theorem Tracks.runCalls (h : Tracks (n + 1) past touches ps) (calls : List (CacheCall α β))
    (hkeeps : ∀ call ∈ calls, call.keeps) :
    Tracks (n + 1) (calls.reverse ++ past)
      (OrderDesk.touches calls (OrderDesk.runCalls (RecentPairs.call (n + 1)) ps calls).1 ++
        touches)
      (OrderDesk.runCalls (RecentPairs.call (n + 1)) ps calls).2 := by
  induction calls generalizing past touches ps with
  | nil => exact h
  | cons call calls ih =>
    have hcall := h.call call (hkeeps call List.mem_cons_self)
    have hrest := ih hcall fun call hc => hkeeps call (List.mem_cons_of_mem _ hc)
    rw [List.reverse_cons, List.append_assoc]
    rw [← List.append_assoc] at hrest
    exact hrest

end RecentPairs

end

/-! ## Runs -/

namespace LruCache

variable {α β : Type} [BEq α] [Hashable α]

/-- What a cache holds after calls that touched these keys, the latest one first. -/
structure WorkingSet (capacity : Nat) (calls : List (CacheCall α β)) (touches : List α)
    (c : LruCache α β) : Prop where
  /-- A key is held iff it was touched and too few others were touched since to drive it out. -/
  contains : ∀ k, c.contains k ↔
    (∃ t ∈ touches, t == k) ∧ (touchedSince touches k).eraseDups.length < capacity
  /-- The keys that are held are listed by their last touch, the latest first. -/
  keys : List.Forall₂ (fun a b => a == b) c.keys (touches.eraseDups.filter c.contains)
  /-- A key that is held has the value that was written last. -/
  values : ∀ k, c.contains k → ∃ v, c.peek? k = some v ∧ lastWritten? calls.reverse k = some v

variable [EquivBEq α] {capacity : Nat} {calls : List (CacheCall α β)} {touches : List α}
  {ps : RecentPairs α β} {c : LruCache α β}

theorem Refines.workingSet [LawfulHashable α] (h : Refines capacity c ps)
    (ht : RecentPairs.Tracks capacity calls.reverse touches ps) :
    WorkingSet capacity calls touches c := by
  have hcontains : ∀ k, c.contains k ↔ ∃ t ∈ touches.eraseDups.take capacity, t == k := by
    intro k
    rw [h.contains, ← ht.exists_key, RecentPairs.contains, RecentPairs.pair?, List.find?_isSome]
  refine ⟨fun k => ?_, ?_, fun k hk => ?_⟩
  · rw [hcontains, exists_mem_take, exists_mem_eraseDups, touchedSince, eraseDups_takeWhile]
  · rw [filter_eq_take (pairwise_eraseDups touches) hcontains, h.keys]
    exact ht.keys
  · rw [h.contains, RecentPairs.contains, Option.isSome_iff_exists] at hk
    obtain ⟨p, hp⟩ := hk
    obtain ⟨hmem, hpk⟩ := RecentPairs.mem_of_pair? hp
    refine ⟨p.2, ?_, ?_⟩
    · rw [h.peek?, RecentPairs.peek?, hp]
      rfl
    · rw [← lastWritten?_congr hpk]
      exact ht.values p hmem

/-- **The working-set law**: after any calls on a new cache that take nothing out, it holds the keys
that were touched last, as many as it may. No call fails. -/
theorem run_workingSet [LawfulHashable α] (h : 1 ≤ capacity) :
    ∃ c : LruCache α β, new? capacity = .ok c ∧ ∀ calls : List (CacheCall α β),
      (∀ call ∈ calls, call.keeps) →
        (∀ e, .failed e ∉ (runCalls call c calls).1) ∧
        WorkingSet capacity calls (OrderDesk.touches calls (runCalls call c calls).1)
          (runCalls call c calls).2 := by
  obtain ⟨n, rfl⟩ : ∃ n, capacity = n + 1 := ⟨capacity - 1, by omega⟩
  refine ⟨⟨∅, .empty, n + 1⟩, if_neg (Nat.succ_ne_zero n), ?_⟩
  intro calls hkeeps
  obtain ⟨hreplies, hrefines⟩ :=
    runCalls_eq (R := Refines (n + 1)) (fun k h => h.call k) (.new (n + 1)) calls
  have htracks := (RecentPairs.Tracks.new (n + 1)).runCalls calls hkeeps
  rw [List.append_nil, List.append_nil] at htracks
  rw [hreplies]
  exact ⟨fun e => RecentPairs.failed_notMem_replies, hrefines.workingSet htracks⟩

/-- The key that was read is held; the one written before that was driven out, and asking for it
later touches nothing. -/
theorem workingSet_of_capacity_two : 1 ≤ 2 ∧
    (∀ call ∈ ([.set 1 "a", .set 2 "b", .get 1, .set 3 "c", .get 2, .peek 1] :
      List (CacheCall Nat String)), call.keeps) ∧
    ∃ c : LruCache Nat String, new? 2 = .ok c ∧
      WorkingSet 2 [.set 1 "a", .set 2 "b", .get 1, .set 3 "c", .get 2, .peek 1] [3, 1, 2, 1]
        (runCalls call c [.set 1 "a", .set 2 "b", .get 1, .set 3 "c", .get 2, .peek 1]).2 := by
  have hkeeps : ∀ call ∈ ([.set 1 "a", .set 2 "b", .get 1, .set 3 "c", .get 2, .peek 1] :
      List (CacheCall Nat String)), call.keeps := by
    simp [CacheCall.keeps]
  obtain ⟨c, hc, h⟩ := run_workingSet (α := Nat) (β := String) (show 1 ≤ 2 by decide)
  obtain rfl := Except.ok.inj hc
  have hlaw := (h _ hkeeps).2
  rw [(runCalls_eq (R := Refines 2) (fun k h => h.call k) (.new 2) _).1] at hlaw
  exact ⟨by decide, hkeeps, _, rfl, hlaw⟩

end LruCache

end OrderDesk
