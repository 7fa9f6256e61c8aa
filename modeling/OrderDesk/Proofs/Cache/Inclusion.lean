import Mathlib.Data.List.Forall2
import OrderDesk.Proofs.Cache.WorkingSet

/-!
# A larger cache holds what a smaller one holds

Two caches of the recently used that get the same calls drift apart: a read may find its key in the
larger one only and reorder it there, and removals leave them different room. Yet the pairs of the
smaller cache are always among those of the larger one, in the same order (`LruCache.run_included`).

The order alone is no invariant. It has to be known besides that the larger cache exceeds the
smaller one by no more than its additional room (`RecentPairs.Within`). Where it drives out its last
pair, the smaller cache is then full as well and does not keep that pair either.
-/

namespace OrderDesk

/-! ## Lists within lists -/

section
variable {α β : Type} {R : α → β → Prop} {xs : List α} {ys : List β}

theorem length_le_of_sublistForall₂ (h : xs.SublistForall₂ R ys) : xs.length ≤ ys.length := by
  induction h with
  | nil => exact Nat.zero_le _
  | cons _ _ ih => exact Nat.succ_le_succ ih
  | cons_right _ ih => exact Nat.le_succ_of_le ih

theorem exists_mem_of_sublistForall₂ (h : xs.SublistForall₂ R ys) {x : α} (hx : x ∈ xs) :
    ∃ y ∈ ys, R x y := by
  induction h with
  | nil => cases hx
  | cons hxy _ ih =>
    rcases List.mem_cons.1 hx with rfl | hx
    · exact ⟨_, List.mem_cons_self, hxy⟩
    · obtain ⟨y, hy, hxy⟩ := ih hx
      exact ⟨y, List.mem_cons_of_mem _ hy, hxy⟩
  | cons_right _ ih =>
    obtain ⟨y, hy, hxy⟩ := ih hx
    exact ⟨y, List.mem_cons_of_mem _ hy, hxy⟩

theorem sublistForall₂_mono {S : α → β → Prop} (hmono : ∀ x y, R x y → S x y)
    (h : xs.SublistForall₂ R ys) : xs.SublistForall₂ S ys := by
  induction h with
  | nil => exact .nil
  | cons hxy _ ih => exact .cons (hmono _ _ hxy) ih
  | cons_right _ ih => exact .cons_right ih

/-- Both lists are cut to a length each. The one stays within the other if that one is not longer by
more than the lengths differ. -/
theorem sublistForall₂_take (h : xs.SublistForall₂ R ys) {m n : Nat}
    (hroom : ys.length + m ≤ xs.length + n) :
    (xs.take m).SublistForall₂ R (ys.take n) := by
  induction h generalizing m n with
  | nil =>
    rw [List.take_nil]
    exact .nil
  | cons hxy h ih =>
    have hle := length_le_of_sublistForall₂ h
    simp only [List.length_cons] at hroom
    cases m with
    | zero => exact .nil
    | succ m =>
      obtain ⟨n, rfl⟩ : ∃ k, n = k + 1 := ⟨n - 1, by omega⟩
      exact .cons hxy (ih (by omega))
  | cons_right h ih =>
    have hle := length_le_of_sublistForall₂ h
    simp only [List.length_cons] at hroom
    obtain ⟨n, rfl⟩ : ∃ k, n = k + 1 := ⟨n - 1, by omega⟩
    exact .cons_right (ih (by omega))

end

/-! ## Pairs -/

namespace RecentPairs

variable {α β : Type} [BEq α]

/-- The same value under the same key. -/
def Same (p q : α × β) : Prop := p.1 == q.1 ∧ p.2 = q.2

/-- The pairs of a cache that may hold `small` of them are among those of one that may hold `large`,
which exceeds it by no more than it has additional room. -/
structure Within (small large : Nat) (ps qs : RecentPairs α β) : Prop where
  pairs : ps.SublistForall₂ Same qs
  room : qs.length + small ≤ ps.length + large

variable {small large capacity : Nat} {ps qs : RecentPairs α β} {p q : α × β} {k : α} {v : β}

theorem drop_cons (p : α × β) (ps : RecentPairs α β) (k : α) :
    drop (p :: ps) k = if !(p.1 == k) then p :: drop ps k else drop ps k := List.filter_cons

variable [EquivBEq α]

/-- Without a key as well, the pairs of the one are among those of the other. -/
theorem sublistForall₂_drop (h : ps.SublistForall₂ Same qs) (k : α) :
    (ps.drop k).SublistForall₂ Same (qs.drop k) := by
  induction h with
  | nil => exact .nil
  | @cons p q ps qs hpq _ ih =>
    rw [drop_cons p, drop_cons q, BEq.congr_left hpq.1]
    split
    · exact .cons hpq ih
    · exact ih
  | @cons_right q ps qs _ ih =>
    rw [drop_cons q]
    split
    · exact .cons_right ih
    · exact ih

/-- The one does not lose more pairs with a key than the other. -/
theorem length_drop_le (h : ps.SublistForall₂ Same qs) (k : α) :
    (qs.drop k).length + ps.length ≤ qs.length + (ps.drop k).length := by
  induction h with
  | @nil qs =>
    exact List.length_filter_le _ _
  | @cons p q ps qs hpq _ ih =>
    rw [drop_cons p, drop_cons q, BEq.congr_left hpq.1]
    split <;> simp only [List.length_cons] <;> omega
  | @cons_right q ps qs _ ih =>
    rw [drop_cons q]
    split <;> simp only [List.length_cons] <;> omega

/-- A pair that the one has under a key, the other has as well. -/
theorem pair?_of_sublistForall₂ (h : ps.SublistForall₂ Same qs)
    (hd : qs.Pairwise fun p q => (p.1 == q.1) = false) (hp : ps.pair? k = some p) :
    ∃ q, qs.pair? k = some q ∧ Same p q := by
  obtain ⟨hmem, hk⟩ := mem_of_pair? hp
  obtain ⟨q, hq, hpq⟩ := exists_mem_of_sublistForall₂ h hmem
  have hqk : q.1 == k := by rw [← BEq.congr_left hpq.1]; exact hk
  refine ⟨q, ?_, hpq⟩
  obtain ⟨as, bs, rfl⟩ := List.append_of_mem hq
  -- the keys differ, so no pair before this one has an equal key
  refine List.find?_eq_some_iff_append.2 ⟨hqk, as, bs, rfl, fun r hr => ?_⟩
  have hrq := (List.pairwise_append.1 hd).2.2 r hr q List.mem_cons_self
  rw [BEq.congr_right (BEq.symm hqk), hrq]
  rfl

namespace Within

theorem remove (h : Within small large ps qs) (k : α) :
    Within small large (ps.remove k).2 (qs.remove k).2 where
  pairs := sublistForall₂_drop h.pairs k
  room := by
    have hroom := h.room
    have hle := length_drop_le h.pairs k
    change (qs.drop k).length + small ≤ (ps.drop k).length + large
    omega

theorem get (h : Within small large ps qs)
    (hd : qs.Pairwise fun p q => (p.1 == q.1) = false) (k : α) :
    Within small large (ps.get k).2 (qs.get k).2 := by
  have hdrop := sublistForall₂_drop h.pairs k
  have hle := length_drop_le h.pairs k
  have hroom := h.room
  cases hp : ps.pair? k with
  | some p =>
    obtain ⟨q, hq, hpq⟩ := pair?_of_sublistForall₂ h.pairs hd hp
    rw [RecentPairs.get, RecentPairs.get, hp, hq]
    refine ⟨.cons hpq hdrop, ?_⟩
    simp only [List.length_cons]
    omega
  | none =>
    have hsame : ps.drop k = ps := drop_eq_self_of_pair? hp
    cases hq : qs.pair? k with
    | none =>
      rw [RecentPairs.get, RecentPairs.get, hp, hq]
      exact h
    | some q =>
      -- the key is found in the larger one only, and moves there past all that both have
      have hlt := length_drop_lt hq
      rw [RecentPairs.get, RecentPairs.get, hp, hq]
      rw [hsame] at hdrop
      refine ⟨.cons_right hdrop, ?_⟩
      simp only [List.length_cons]
      omega

theorem set (h : Within small large ps qs) (hps : ps.length ≤ small) (hqs : qs.length ≤ large)
    (k : α) (v : β) : Within small large (ps.set small k v).2 (qs.set large k v).2 := by
  obtain ⟨k₁, hk₁, he₁⟩ := exists_set_eq_take hps k v
  obtain ⟨k₂, hk₂, he₂⟩ := exists_set_eq_take hqs k v
  have hsame : Same (k₁, v) (k₂, v) := ⟨BEq.trans hk₁ (BEq.symm hk₂), rfl⟩
  have hle := length_drop_le h.pairs k
  have hroom := h.room
  have hcut : ((k₂, v) :: qs.drop k).length + small ≤ ((k₁, v) :: ps.drop k).length + large := by
    simp only [List.length_cons]
    omega
  rw [he₁, he₂]
  refine ⟨sublistForall₂_take (.cons hsame (sublistForall₂_drop h.pairs k)) hcut, ?_⟩
  rw [List.length_take, List.length_take]
  omega

theorem call (h : Within small large ps qs)
    (hd : qs.Pairwise fun p q => (p.1 == q.1) = false) (hps : ps.length ≤ small)
    (hqs : qs.length ≤ large) (call : CacheCall α β) :
    Within small large (ps.call small call).2 (qs.call large call).2 := by
  cases call with
  | get k => exact h.get hd k
  | set k v => exact h.set hps hqs k v
  | remove k => exact h.remove k
  | peek k | contains k | keys | size => exact h

end Within

end RecentPairs

/-! ## Caches -/

namespace LruCache

variable {α β : Type} [BEq α] [Hashable α] {c d : LruCache α β} {small large capacity : Nat}
  {ps qs : RecentPairs α β}

/-- What a cache holds, another one holds too. -/
structure Included (c d : LruCache α β) : Prop where
  /-- The keys of the one, in their order, are among those of the other. -/
  keys : c.keys.SublistForall₂ (fun k k' => k == k') d.keys
  /-- They have the same values in both. -/
  values : ∀ k ∈ c.keys, ∃ v, c.peek? k = some v ∧ d.peek? k = some v
  peek : ∀ k v, c.peek? k = some v → d.peek? k = some v
  get : ∀ k v c', c.get k = .ok (some v, c') → ∃ d', d.get k = .ok (some v, d')

variable [EquivBEq α]

/-- What is found in the one is found in the other. -/
theorem peek?_of_within (hc : Refines small c ps) (hd : Refines large d qs)
    (h : RecentPairs.Within small large ps qs) {k : α} {v : β} (hv : c.peek? k = some v) :
    d.peek? k = some v := by
  rw [hc.peek?, RecentPairs.peek?] at hv
  obtain ⟨p, hp, rfl⟩ := Option.map_eq_some_iff.1 hv
  obtain ⟨q, hq, -, hvalue⟩ := RecentPairs.pair?_of_sublistForall₂ h.pairs hd.distinct hp
  rw [hd.peek?, RecentPairs.peek?, hq, Option.map_some, hvalue]

/-- A read finds what is there. -/
theorem Refines.get_eq (h : Refines capacity c ps) (k : α) :
    ∃ c', c.get k = .ok (c.peek? k, c') := by
  obtain ⟨c', hget, -⟩ := h.get k
  exact ⟨c', by rw [hget, h.peek?, RecentPairs.fst_get]⟩

theorem included_of_within (hc : Refines small c ps) (hd : Refines large d qs)
    (h : RecentPairs.Within small large ps qs) : Included c d := by
  have hpeek : ∀ k v, c.peek? k = some v → d.peek? k = some v :=
    fun k v => peek?_of_within hc hd h
  refine ⟨?_, fun k hk => ?_, hpeek, fun k v c' hget => ?_⟩
  · rw [hc.keys, hd.keys, RecentPairs.keys, RecentPairs.keys, List.sublistForall₂_map_left_iff,
      List.sublistForall₂_map_right_iff]
    exact sublistForall₂_mono (fun _ _ hpq => hpq.1) h.pairs
  · rw [hc.keys] at hk
    obtain ⟨p, hp, rfl⟩ := List.mem_map.1 hk
    obtain ⟨v, hv⟩ : ∃ v, c.peek? p.1 = some v := by
      rw [hc.peek?, RecentPairs.peek?, ← Option.isSome_iff_exists, Option.isSome_map,
        RecentPairs.pair?, List.find?_isSome]
      exact ⟨p, hp, BEq.rfl⟩
    exact ⟨v, hv, hpeek _ v hv⟩
  · obtain ⟨c'', hget'⟩ := hc.get_eq k
    obtain ⟨d', hgetd⟩ := hd.get_eq k
    have hv : c.peek? k = some v := (Prod.mk.inj (Except.ok.inj (hget'.symm.trans hget))).1
    exact ⟨d', by rw [hgetd, hpeek k v hv]⟩

variable [LawfulHashable α]

/-- After any calls, the pairs of the smaller cache are within those of the larger one. -/
theorem exists_within (hle : small ≤ large) (calls : List (CacheCall α β)) :
    ∃ ps qs, Refines small (runCalls call (⟨∅, .empty, small⟩ : LruCache α β) calls).2 ps ∧
      Refines large (runCalls call (⟨∅, .empty, large⟩ : LruCache α β) calls).2 qs ∧
      RecentPairs.Within small large ps qs := by
  suffices hkept : ∀ (c d : LruCache α β) ps qs, Refines small c ps → Refines large d qs →
      RecentPairs.Within small large ps qs → ∃ ps' qs',
        Refines small (runCalls call c calls).2 ps' ∧
        Refines large (runCalls call d calls).2 qs' ∧ RecentPairs.Within small large ps' qs' by
    refine hkept _ _ [] [] (.new small) (.new large) ⟨.nil, ?_⟩
    simpa using hle
  induction calls with
  | nil => exact fun c d ps qs hc hd h => ⟨ps, qs, hc, hd, h⟩
  | cons call calls ih =>
    intro c d ps qs hc hd h
    exact ih _ _ _ _ (hc.call call).2 (hd.call call).2
      (h.call hd.distinct hc.length_le hd.length_le call)

/-- **Inclusion**: two new caches that get the same calls, the second one at least as large as the
first. At any time the second one holds what the first one holds. -/
theorem run_included (hpos : 1 ≤ small) (hle : small ≤ large) :
    ∃ c d : LruCache α β, new? small = .ok c ∧ new? large = .ok d ∧
      ∀ calls : List (CacheCall α β),
        Included (runCalls call c calls).2 (runCalls call d calls).2 := by
  refine ⟨⟨∅, .empty, small⟩, ⟨∅, .empty, large⟩, if_neg (by omega), if_neg (by omega), ?_⟩
  intro calls
  obtain ⟨ps, qs, hc, hd, h⟩ := exists_within hle calls
  exact included_of_within hc hd h

/-- A key that the smaller cache has driven out is found in the larger one, which reorders it. -/
theorem included_of_capacities_one_two : 1 ≤ 1 ∧ 1 ≤ 2 ∧ ∃ c d : LruCache Nat String,
    new? 1 = .ok c ∧ new? 2 = .ok d ∧
    (runCalls call c [.set 1 "a", .set 2 "b", .get 1, .set 3 "c", .keys]).1 =
      [.written none, .written (some 1), .value none, .written (some 2), .keys [3]] ∧
    (runCalls call d [.set 1 "a", .set 2 "b", .get 1, .set 3 "c", .keys]).1 =
      [.written none, .written none, .value (some "a"), .written (some 2), .keys [3, 1]] ∧
    Included (runCalls call c [.set 1 "a", .set 2 "b", .get 1, .set 3 "c", .keys]).2
      (runCalls call d [.set 1 "a", .set 2 "b", .get 1, .set 3 "c", .keys]).2 := by
  obtain ⟨c, d, hc, hd, h⟩ :=
    run_included (α := Nat) (β := String) (show 1 ≤ 1 by decide) (show 1 ≤ 2 by decide)
  obtain rfl := Except.ok.inj hc
  obtain rfl := Except.ok.inj hd
  refine ⟨by decide, by decide, _, _, rfl, rfl, ?_, ?_, h _⟩
  · exact (runCalls_eq (R := Refines 1) (fun k h => h.call k) (.new 1) _).1.trans rfl
  · exact (runCalls_eq (R := Refines 2) (fun k h => h.call k) (.new 2) _).1.trans rfl

end LruCache

end OrderDesk
