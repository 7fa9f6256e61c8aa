import Mathlib.Data.List.Induction
import Mathlib.Data.List.Perm.Subperm
import OrderDesk.Proofs.Cache.Linkage

/-!
# The operations of a recency list on its sequence

What each operation of a recency list does to the sequence it holds, with no element loose. A
position is written as the length of the elements before it: the operation at `xs.length` on
`xs ++ p :: ys` concerns `p`. Positions are found by walking from either end (`forward_eq`,
`backward_eq`), which meet at the same slot (`Holds.slotAt`).

An operation that fails gives no list, so what it was called on stays as it is.
-/

namespace OrderDesk.RecencyList

variable {α : Type} {l : RecencyList α} {p : NodeId × α} {id : NodeId} {v : α}
  {prev next : Option Nat} {xs ys loose : List (NodeId × α)}

/-! ## Walking -/

theorem Linked.stores (h : l.Linked prev (xs ++ p :: ys) next) :
    l.Stores p (lastSlot prev xs) (firstSlot ys next) := (linked_append.1 h).2.1

theorem Holds.stores (h : l.Holds (xs ++ p :: ys) loose) :
    l.Stores p (lastSlot none xs) (firstSlot ys none) := h.linked.stores

/-- The walk towards the end passes one element a step. -/
theorem forward_eq (h : l.Linked prev (xs ++ ys) none) :
    l.forward xs.length (firstSlot (xs ++ ys) none) = .ok (firstSlot ys none) := by
  induction xs generalizing prev with
  | nil => rfl
  | cons p xs ih =>
    have hp := h.1.node
    rw [List.length_cons, List.cons_append, firstSlot, forward, hp, ok_bind]
    exact ih h.2

/-- The walk towards the front passes one element a step. -/
theorem backward_eq (h : l.Linked none (xs ++ ys) next) :
    l.backward ys.length (lastSlot none (xs ++ ys)) = .ok (lastSlot none xs) := by
  induction ys using List.reverseRecOn generalizing next with
  | nil => rw [List.append_nil]; rfl
  | append_singleton ys p ih =>
    rw [← List.append_assoc] at h ⊢
    have hp := h.stores.node
    rw [lastSlot_append, List.length_append]
    change l.backward (ys.length + 1) (some p.1.slot) = _
    rw [backward, hp, ok_bind]
    exact ih (linked_append.1 h).1

/-- Whichever end is nearer, the walk ends at the element of the position. -/
theorem Holds.slotAt (h : l.Holds (xs ++ p :: ys) loose) :
    l.slotAt xs.length = .ok p.1.slot := by
  have hsize : l.size = xs.length + (ys.length + 1) := by rw [h.size]; simp
  have hlt : ¬l.size ≤ xs.length := by omega
  rw [RecencyList.slotAt, if_neg hlt]
  split
  · rw [h.head, forward_eq h.linked]; rfl
  · have hsteps : l.size - 1 - xs.length = ys.length := by omega
    have hl := h.linked
    have ht := h.tail
    rw [List.append_cons] at hl ht
    rw [hsteps, ht, backward_eq hl, lastSlot_append]; rfl

theorem Holds.slotAt_of_le {index : Nat} (h : l.Holds xs loose) (hi : xs.length ≤ index) :
    l.slotAt index = .error (.invalidIndex index xs.length) := by
  rw [← h.size] at hi ⊢
  rw [RecencyList.slotAt, if_pos hi]; rfl

/-! ## Handles -/

theorem Holds.resolve (h : l.Holds (xs ++ p :: ys) loose) : l.resolve p.1 = .ok p.1.slot := by
  rw [RecencyList.resolve, show l.slots[p.1.slot]? = _ from h.stores]
  simp

/-- The handle of no element is stale. -/
theorem Holds.resolve_of_notMem (h : l.Holds xs []) (hid : id ∉ xs.map (·.1)) :
    l.resolve id = .error (.staleNode id) := by
  rw [RecencyList.resolve]
  split
  next s hs =>
    refine if_neg fun hc => hid ?_
    rw [Bool.and_eq_true, decide_eq_true_eq] at hc
    obtain ⟨n, hn⟩ := Option.isSome_iff_exists.1 hc.2
    have hcontent : l.content id.slot = some (id.generation, some n.value) :=
      content_eq_some.2 ⟨some n, by rw [hs, ← hn, ← hc.1], rfl⟩
    have hm := h.stocks.occupied hcontent
    rw [List.append_nil] at hm
    obtain ⟨p, hp, hslot⟩ := List.mem_map.1 hm
    have hpc := h.stocks.content p (by rwa [List.append_nil])
    rw [hslot, hcontent] at hpc
    obtain ⟨hgen, -⟩ := Prod.mk.inj (Option.some.inj hpc)
    have hid : p.1 = id := by
      cases hp1 : p.1
      cases id
      simp only [hp1] at hslot hgen
      rw [hslot, ← hgen]
    exact List.mem_map.2 ⟨p, hp, hid⟩
  next => rfl

theorem Holds.containsNode (h : l.Holds xs []) :
    l.containsNode id = decide (id ∈ xs.map (·.1)) := by
  by_cases hid : id ∈ xs.map (·.1)
  · obtain ⟨p, hp, rfl⟩ := List.mem_map.1 hid
    obtain ⟨as, bs, rfl⟩ := List.append_of_mem hp
    rw [RecencyList.containsNode, h.resolve, decide_eq_true hid]; rfl
  · rw [RecencyList.containsNode, h.resolve_of_notMem hid, decide_eq_false hid]; rfl

/-! ## Putting in -/

theorem Holds.pushFront (h : l.Holds xs []) (v : α) :
    ∃ id l', l.pushFront v = .ok (id, l') ∧ l'.Holds ((id, v) :: xs) [] ∧ l.GivesOut l' id := by
  obtain ⟨id, l₁, he₁, h₁, hg₁⟩ := h.allocate v
  obtain ⟨l₂, he₂, h₂, hc₂⟩ := h₁.linkFront
  refine ⟨id, l₂, ?_, h₂, hg₁.congr hc₂⟩
  rw [RecencyList.pushFront, he₁, ok_bind]
  dsimp only
  rw [he₂]; rfl

theorem Holds.pushBack (h : l.Holds xs []) (v : α) :
    ∃ id l', l.pushBack v = .ok (id, l') ∧ l'.Holds (xs ++ [(id, v)]) [] ∧ l.GivesOut l' id := by
  obtain ⟨id, l₁, he₁, h₁, hg₁⟩ := h.allocate v
  obtain ⟨l₂, he₂, h₂, hc₂⟩ := h₁.linkBack
  refine ⟨id, l₂, ?_, h₂, hg₁.congr hc₂⟩
  rw [RecencyList.pushBack, he₁, ok_bind]
  dsimp only
  rw [he₂]; rfl

/-- A new element comes to the position, before what was there. -/
theorem Holds.insert (h : l.Holds (xs ++ ys) []) (v : α) :
    ∃ id l', l.insert v xs.length = .ok (id, l') ∧ l'.Holds (xs ++ (id, v) :: ys) [] ∧
      l.GivesOut l' id := by
  have hsize : l.size = xs.length + ys.length := by rw [h.size, List.length_append]
  rw [RecencyList.insert, if_neg (by omega)]
  dsimp only
  cases xs with
  | nil =>
    rw [List.length_nil, if_pos rfl]
    exact h.pushFront v
  | cons x xs =>
    rw [if_neg (show (x :: xs).length ≠ 0 from Nat.succ_ne_zero _)]
    cases ys with
    | nil =>
      rw [List.append_nil] at h
      rw [if_pos h.size.symm]
      exact h.pushBack v
    | cons y ys =>
      have hne : (x :: xs).length ≠ l.size := by rw [hsize, List.length_cons (a := y)]; omega
      rw [if_neg hne, h.slotAt, ok_bind]
      obtain ⟨id, l₁, he₁, h₁, hg₁⟩ := h.allocate v
      obtain ⟨l₂, he₂, h₂, hc₂⟩ := h₁.linkBefore
      refine ⟨id, l₂, ?_, h₂, hg₁.congr hc₂⟩
      rw [he₁, ok_bind]
      dsimp only
      rw [he₂]; rfl

theorem Holds.insert_of_lt {index : Nat} (h : l.Holds xs []) (hi : xs.length < index) (v : α) :
    l.insert v index = .error (.invalidIndex index xs.length) := by
  rw [← h.size] at hi ⊢
  rw [RecencyList.insert, if_pos hi]; rfl

/-! ## Taking out -/

theorem Holds.removeAt (h : l.Holds (xs ++ p :: ys) []) :
    ∃ l', l.removeAt xs.length = .ok (p.2, l') ∧ l'.Holds (xs ++ ys) [] ∧
      ∀ {id}, l.Issued id → l'.Issued id := by
  rw [RecencyList.removeAt, h.slotAt, ok_bind]
  exact h.removeSlot

theorem Holds.removeAt_of_le {index : Nat} (h : l.Holds xs []) (hi : xs.length ≤ index) :
    l.removeAt index = .error (.invalidIndex index xs.length) := by
  rw [RecencyList.removeAt, h.slotAt_of_le hi]; rfl

theorem Holds.removeFirst (h : l.Holds (p :: ys) []) :
    ∃ l', l.removeFirst = .ok (p.2, l') ∧ l'.Holds ys [] ∧
      ∀ {id}, l.Issued id → l'.Issued id := by
  have h : l.Holds ([] ++ p :: ys) [] := h
  rw [RecencyList.removeFirst, h.head]
  exact h.removeSlot

theorem Holds.removeLast (h : l.Holds (xs ++ [p]) []) :
    ∃ l', l.removeLast = .ok (p.2, l') ∧ l'.Holds xs [] ∧
      ∀ {id}, l.Issued id → l'.Issued id := by
  have hr := h.removeSlot
  rw [List.append_nil] at hr
  rw [RecencyList.removeLast, h.tail, lastSlot_append]
  exact hr

theorem Holds.removeNode (h : l.Holds (xs ++ p :: ys) []) :
    ∃ l', l.removeNode p.1 = .ok (p.2, l') ∧ l'.Holds (xs ++ ys) [] ∧
      ∀ {id}, l.Issued id → l'.Issued id := by
  rw [RecencyList.removeNode, h.resolve, ok_bind]
  exact h.removeSlot

/-! ## Moving to the front -/

theorem Holds.moveToFirst (h : l.Holds (xs ++ p :: ys) []) :
    ∃ l', l.moveToFirst xs.length = .ok l' ∧ l'.Holds (p :: (xs ++ ys)) [] ∧
      l'.content = l.content := by
  rw [RecencyList.moveToFirst, h.slotAt, ok_bind]
  exact h.moveSlotToFront

theorem Holds.moveToFirst_of_le {index : Nat} (h : l.Holds xs []) (hi : xs.length ≤ index) :
    l.moveToFirst index = .error (.invalidIndex index xs.length) := by
  rw [RecencyList.moveToFirst, h.slotAt_of_le hi]; rfl

theorem Holds.moveNodeToFront (h : l.Holds (xs ++ p :: ys) []) :
    ∃ l', l.moveNodeToFront p.1 = .ok l' ∧ l'.Holds (p :: (xs ++ ys)) [] ∧
      l'.content = l.content := by
  rw [RecencyList.moveNodeToFront, h.resolve, ok_bind]
  exact h.moveSlotToFront

/-! ## What can be seen -/

theorem Stores.value (h : l.Stores p prev next) :
    (l.node? p.1.slot).map (·.value) = some p.2 := by
  rw [node?, show l.slots[p.1.slot]? = _ from h]; rfl

theorem Holds.get? {index : Nat} (h : l.Holds xs []) : l.get? index = xs[index]?.map (·.2) := by
  rw [RecencyList.get?]
  by_cases hi : index < xs.length
  · have hx : xs = xs.take index ++ xs[index] :: xs.drop (index + 1) := by simp
    have hlen : (xs.take index).length = index := by simp; omega
    rw [List.getElem?_eq_getElem hi]
    generalize xs[index] = p at hx ⊢
    generalize xs.drop (index + 1) = ys at hx
    generalize xs.take index = as at hx hlen
    subst hx hlen
    rw [h.slotAt]
    exact h.stores.value
  · rw [List.getElem?_eq_none (Nat.not_lt.1 hi), h.slotAt_of_le (Nat.not_lt.1 hi)]
    rfl

theorem Holds.first? (h : l.Holds xs []) : l.first? = xs.head?.map (·.2) := by
  rw [RecencyList.first?, h.head]
  cases xs with
  | nil => rfl
  | cons p xs =>
    have h : l.Holds ([] ++ p :: xs) [] := h
    exact h.stores.value

theorem Holds.last? (h : l.Holds xs []) : l.last? = xs.getLast?.map (·.2) := by
  rw [RecencyList.last?, h.tail]
  rcases List.eq_nil_or_concat xs with rfl | ⟨ys, p, rfl⟩
  · rfl
  · rw [List.concat_eq_append] at h ⊢
    rw [lastSlot_append, List.getLast?_concat]
    exact h.stores.value

theorem collect_eq {fuel : Nat} (h : l.Linked prev xs none) (hf : xs.length ≤ fuel) :
    l.collect fuel (firstSlot xs none) = xs.map (·.2) := by
  induction xs generalizing prev fuel with
  | nil => cases fuel <;> rfl
  | cons p xs ih =>
    obtain ⟨fuel, rfl⟩ := Nat.exists_eq_add_one_of_ne_zero (Nat.ne_of_gt (Nat.zero_lt_of_lt hf))
    have hn : l.node? p.1.slot = some ⟨p.2, prev, firstSlot xs none⟩ := by
      rw [node?, show l.slots[p.1.slot]? = _ from h.1]; rfl
    rw [firstSlot, collect, hn]
    exact congrArg (p.2 :: ·) (ih h.2 (Nat.le_of_succ_le_succ hf))

/-- Elements in different slots are no more than the slots. -/
theorem Holds.length_le (h : l.Holds xs loose) : xs.length ≤ l.slots.size := by
  have hsub : xs.map (·.1.slot) ⊆ List.range l.slots.size := by
    intro slot hs
    obtain ⟨p, hp, rfl⟩ := List.mem_map.1 hs
    obtain ⟨node?, hs, -⟩ := content_eq_some.1 (h.stocks.content p (List.mem_append_left _ hp))
    exact List.mem_range.2 (Array.getElem?_eq_some_iff.1 hs).1
  have hle := (List.subperm_of_subset h.nodup hsub).length_le
  rwa [List.length_map, List.length_range] at hle

theorem Holds.toList (h : l.Holds xs loose) : l.toList = xs.map (·.2) := by
  rw [RecencyList.toList, h.head]
  exact collect_eq h.linked h.length_le

theorem Holds.isEmpty (h : l.Holds xs loose) : l.isEmpty = xs.isEmpty := by
  rw [RecencyList.isEmpty, h.size]
  cases xs <;> rfl

end OrderDesk.RecencyList
