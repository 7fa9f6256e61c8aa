import Mathlib.Data.List.Perm.Subperm
import OrderDesk.Proofs.Order.Validation
import OrderDesk.Storage

/-!
# What a store holds

Saving an order replaces the one with its identity and leaves the others as they are. Every order is
held under its own identity. The latest orders of a store are those that precede all others by the
time of their creation (`Keyed.latest_last`), whatever order the table has them in.
-/

namespace OrderDesk.OrderStore

variable {s : OrderStore} {o : Order} {uid : String} {limit : Nat}

theorem find?_empty (uid : String) : empty.find? uid = none := Std.HashMap.getElem?_empty

theorem find?_save (s : OrderStore) (o : Order) (uid : String) :
    (s.save o).find? uid = if o.uid = uid then some o else s.find? uid := by
  rw [find?, save, Std.HashMap.getElem?_insert]
  simp only [beq_iff_eq]
  rfl

theorem size_empty : empty.size = 0 := Std.HashMap.size_empty

theorem size_save (s : OrderStore) (o : Order) :
    (s.save o).size = if (s.find? o.uid).isSome then s.size else s.size + 1 := by
  rw [size, save, Std.HashMap.size_insert, find?]
  simp only [Std.HashMap.mem_iff_isSome_getElem?]
  rfl

/-- Every order is held under its own identity. -/
def Keyed (s : OrderStore) : Prop := ∀ uid o, s.find? uid = some o → o.uid = uid

theorem keyed_empty : empty.Keyed := fun uid o h => by
  rw [find?_empty] at h
  cases h

theorem Keyed.save (h : s.Keyed) (o : Order) : (s.save o).Keyed := by
  intro uid o' ho'
  rw [find?_save] at ho'
  split at ho'
  · cases ho'
    assumption
  · exact h uid o' ho'

theorem keyed_ofOrders (os : List Order) : (ofOrders os).Keyed := by
  suffices hkeyed : ∀ s : OrderStore, s.Keyed → (os.foldl OrderStore.save s).Keyed from
    hkeyed empty keyed_empty
  induction os with
  | nil => exact fun s h => h
  | cons o os ih => exact fun s h => ih (s.save o) (h.save o)

theorem mem_contents : o ∈ s.contents ↔ ∃ uid, s.find? uid = some o := by
  rw [contents, List.mem_map]
  constructor
  · rintro ⟨⟨uid, v⟩, hmem, rfl⟩
    exact ⟨uid, Std.HashMap.mem_toList_iff_getElem?_eq_some.1 hmem⟩
  · rintro ⟨uid, h⟩
    exact ⟨(uid, o), Std.HashMap.mem_toList_iff_getElem?_eq_some.2 h, rfl⟩

theorem Keyed.mem_contents (h : s.Keyed) : o ∈ s.contents ↔ s.find? o.uid = some o := by
  refine OrderStore.mem_contents.trans ⟨fun ⟨uid, huid⟩ => ?_, fun ho => ⟨o.uid, ho⟩⟩
  rw [h uid o huid]
  exact huid

/-- The orders that are given as the latest are held. -/
theorem Keyed.find?_of_mem_last (h : s.Keyed) (ho : o ∈ s.last limit) :
    s.find? o.uid = some o :=
  h.mem_contents.1 (List.mem_mergeSort.1 (List.mem_of_mem_take ho))

/-! ## The latest orders -/

/-- The order was created later, or at the same instant and has the lesser identity. -/
def Precedes (a b : Order) : Prop :=
  compare a.createdAt b.createdAt = .gt ∨
    compare a.createdAt b.createdAt = .eq ∧ a.uid < b.uid

instance (a b : Order) : Decidable (Precedes a b) := inferInstanceAs (Decidable (_ ∨ _))

/-- These are the `limit` orders of the store that precede all others, in their order. -/
structure Latest (s : OrderStore) (limit : Nat) (os : List Order) : Prop where
  stored : ∀ o ∈ os, s.find? o.uid = some o
  sorted : os.Pairwise Precedes
  length : os.length = min limit s.size
  others : ∀ uid o, s.find? uid = some o → o ∈ os ∨ ∀ a ∈ os, Precedes a o

variable {a b c : Order} {os os' : List Order}

theorem Precedes.asymm (hab : Precedes a b) : ¬Precedes b a := by
  have hswap : compare b.createdAt a.createdAt = (compare a.createdAt b.createdAt).swap :=
    Std.OrientedCmp.eq_swap
  rintro (hgt | ⟨heq, hlt⟩) <;> rcases hab with hgt' | ⟨heq', hlt'⟩
  · rw [hgt', hgt] at hswap
    cases hswap
  · rw [heq', hgt] at hswap
    cases hswap
  · rw [hgt', heq] at hswap
    cases hswap
  · exact String.lt_asymm hlt hlt'

theorem Precedes.irrefl (a : Order) : ¬Precedes a a := fun h => h.asymm h

theorem nodup_of_sorted (h : os.Pairwise Precedes) : os.Nodup := by
  refine h.imp ?_
  rintro a b hab rfl
  exact Precedes.irrefl a hab

/-- Sorted lists of the same orders are equal. -/
theorem eq_of_sorted (h : os.Pairwise Precedes) (h' : os'.Pairwise Precedes)
    (hmem : ∀ o, o ∈ os ↔ o ∈ os') : os = os' := by
  have hperm : os.Perm os' :=
    (List.perm_ext_iff_of_nodup (nodup_of_sorted h) (nodup_of_sorted h')).2 hmem
  exact hperm.eq_of_pairwise (fun _ _ _ _ hab hba => absurd hba hab.asymm) h h'

theorem newerFirst_iff : newerFirst a b = true ↔
    compare a.createdAt b.createdAt = .gt ∨
      compare a.createdAt b.createdAt = .eq ∧ a.uid ≤ b.uid := by
  rw [newerFirst]
  cases compare a.createdAt b.createdAt <;> simp

theorem newerFirst_trans (hab : newerFirst a b = true) (hbc : newerFirst b c = true) :
    newerFirst a c = true := by
  rw [newerFirst_iff] at hab hbc ⊢
  rcases hab with hab | ⟨hab, huid⟩ <;> rcases hbc with hbc | ⟨hbc, huid'⟩
  · exact .inl (Std.TransCmp.gt_trans hab hbc)
  · exact .inl (Std.TransCmp.gt_of_gt_of_eq hab hbc)
  · exact .inl (Std.TransCmp.gt_of_eq_of_gt hab hbc)
  · exact .inr ⟨Std.TransCmp.eq_trans hab hbc, String.le_trans huid huid'⟩

theorem newerFirst_total (a b : Order) : (newerFirst a b || newerFirst b a) = true := by
  have hswap : compare b.createdAt a.createdAt = (compare a.createdAt b.createdAt).swap :=
    Std.OrientedCmp.eq_swap
  rw [Bool.or_eq_true, newerFirst_iff, newerFirst_iff, hswap]
  cases compare a.createdAt b.createdAt with
  | lt => exact .inr (.inl rfl)
  | gt => exact .inl (.inl rfl)
  | eq =>
    rcases String.le_total a.uid b.uid with hle | hle
    · exact .inl (.inr ⟨rfl, hle⟩)
    · exact .inr (.inr ⟨rfl, hle⟩)

theorem precedes_of_newerFirst (hne : a.uid ≠ b.uid) (h : newerFirst a b = true) :
    Precedes a b := by
  refine (newerFirst_iff.1 h).imp id fun ⟨heq, hle⟩ => ⟨heq, ?_⟩
  exact String.not_le.1 fun hge => hne (String.le_antisymm hle hge)

/-- No identity is that of two orders. -/
theorem Keyed.nodup_contents (h : s.Keyed) : (s.contents.map (·.uid)).Nodup := by
  have hkeys : s.contents.map (·.uid) = s.orders.keys := by
    rw [contents, List.map_map, ← Std.HashMap.map_fst_toList_eq_keys]
    refine List.map_congr_left fun p hp => ?_
    exact h p.1 p.2 (Std.HashMap.mem_toList_iff_getElem?_eq_some.1 hp)
  rw [hkeys]
  exact Std.HashMap.nodup_keys

theorem length_contents (s : OrderStore) : s.contents.length = s.size := by
  rw [contents, List.length_map, Std.HashMap.length_toList]
  rfl

/-- Whatever order the table gives them in, the orders are sorted strictly. -/
theorem Keyed.sorted_mergeSort (h : s.Keyed) {table : List Order} (hp : table.Perm s.contents) :
    (table.mergeSort newerFirst).Pairwise Precedes := by
  have hperm : (table.mergeSort newerFirst).Perm s.contents := (List.mergeSort_perm _ _).trans hp
  have hnodup := (hperm.map (·.uid)).nodup_iff.2 h.nodup_contents
  have hnewer : (table.mergeSort newerFirst).Pairwise fun a b => newerFirst a b = true :=
    List.pairwise_mergeSort (fun a b c => newerFirst_trans (a := a) (b := b) (c := c))
      newerFirst_total table
  exact (hnewer.and (List.pairwise_map.1 hnodup)).imp fun ⟨hle, hne⟩ =>
    precedes_of_newerFirst hne hle

theorem Keyed.latest_last (h : s.Keyed) (limit : Nat) : s.Latest limit (s.last limit) := by
  have hperm : (s.contents.mergeSort newerFirst).Perm s.contents := List.mergeSort_perm _ _
  have hsorted := h.sorted_mergeSort (.refl _)
  refine ⟨fun o ho => h.find?_of_mem_last ho, hsorted.sublist (List.take_sublist _ _), ?_, ?_⟩
  · rw [last, List.length_take, List.length_mergeSort, length_contents]
  · intro uid o ho
    have hmem := hperm.mem_iff.2 (OrderStore.mem_contents.2 ⟨uid, ho⟩)
    rw [← List.take_append_drop limit (s.contents.mergeSort newerFirst)] at hmem hsorted
    refine (List.mem_append.1 hmem).imp id fun hdrop a ha => ?_
    exact (List.pairwise_append.1 hsorted).2.2 a ha o hdrop

theorem Latest.nodup (h : s.Latest limit os) : os.Nodup := nodup_of_sorted h.sorted

theorem Latest.nodup_uids (h : s.Latest limit os) : (os.map (·.uid)).Nodup := by
  refine List.pairwise_map.2 (h.nodup.imp_of_mem ?_)
  intro a b ha hb hne huid
  have hstored := h.stored a ha
  rw [huid, h.stored b hb] at hstored
  exact hne (Option.some.inj hstored).symm

theorem Latest.subset (h : s.Latest limit os) (h' : s.Latest limit os') : os ⊆ os' := by
  intro o ho
  refine (h'.others o.uid o (h.stored o ho)).resolve_right fun hlater => ?_
  -- the others of `os'` come before `o`, so they are all in `os`, and there are as many of them
  have hsub : os' ⊆ os := fun o' ho' =>
    (h.others o'.uid o' (h'.stored o' ho')).resolve_right fun hlater' =>
      (hlater o' ho').asymm (hlater' o ho)
  have hperm := (List.subperm_of_subset h'.nodup hsub).perm_of_length_le
    (Nat.le_of_eq (h.length.trans h'.length.symm))
  exact Precedes.irrefl o (hlater o (hperm.mem_iff.2 ho))

/-- The latest orders are determined by what the store holds. -/
theorem Latest.eq (h : s.Latest limit os) (h' : s.Latest limit os') : os = os' :=
  eq_of_sorted h.sorted h'.sorted fun _ => ⟨fun ho => h.subset h' ho, fun ho => h'.subset h ho⟩

end OrderDesk.OrderStore
