import Mathlib.Order.Bounds.Basic
import OrderDesk.Proofs.Cache.RecentlyUsed
import OrderDesk.Proofs.Cache.PlainSequence

/-!
# The slots of a recency list

Only an insertion adds a slot, and only where no slot is free. As every slot is free or holds an
element (`Holds.size_slots`), a list has as many slots as it ever had elements at a time
(`ListSession.isGreatest_slots`). A cache of the recently used holds one key too many for a moment,
so its list never has more slots than the capacity and one (`LruCache.run_footprint`).
-/

namespace OrderDesk

theorem bind_eq_ok_iff {ε β γ : Type} {r : Except ε β} {f : β → Except ε γ} {c : γ} :
    (r >>= f) = .ok c ↔ ∃ b, r = .ok b ∧ f b = .ok c := by
  cases r with
  | error e => exact ⟨fun h => (nomatch h), fun ⟨_, h, _⟩ => (nomatch h)⟩
  | ok b =>
    refine ⟨fun h => ⟨b, rfl, h⟩, fun ⟨b', hb, h⟩ => ?_⟩
    cases hb
    exact h

namespace RecencyList

variable {α : Type} {l l' : RecencyList α} {slot before index : Nat} {slot? link : Option Nat}
  {id : NodeId} {v : α} {xs : List (NodeId × α)}

/-! ## What the operations do to the slots -/

/-- The list has one element more, and one slot more if none was free. -/
structure Grows (l l' : RecencyList α) : Prop where
  size : l'.size = l.size + 1
  slots : l'.slots.size = l.slots.size + if l.free = [] then 1 else 0

theorem slots_modifyNode {f : Node α → Node α} (h : l.modifyNode slot f = .ok l') :
    l'.slots.size = l.slots.size := by
  unfold modifyNode at h
  split at h
  · cases h
    exact Array.size_modify
  · cases h

theorem slots_setNext (h : l.setNext slot? link = .ok l') : l'.slots.size = l.slots.size := by
  unfold setNext at h
  split at h
  · exact slots_modifyNode h
  · cases h
    rfl

theorem slots_setPrev (h : l.setPrev slot? link = .ok l') : l'.slots.size = l.slots.size := by
  unfold setPrev at h
  split at h
  · exact slots_modifyNode h
  · cases h
    rfl

theorem linkFront_eq_ok (h : l.linkFront slot = .ok l') :
    l'.size = l.size + 1 ∧ l'.slots.size = l.slots.size := by
  obtain ⟨l₁, h₁, h⟩ := bind_eq_ok_iff.1 h
  obtain ⟨l₂, h₂, h⟩ := bind_eq_ok_iff.1 h
  cases h
  exact ⟨rfl, (slots_setPrev h₂).trans (slots_modifyNode h₁)⟩

theorem linkBack_eq_ok (h : l.linkBack slot = .ok l') :
    l'.size = l.size + 1 ∧ l'.slots.size = l.slots.size := by
  obtain ⟨l₁, h₁, h⟩ := bind_eq_ok_iff.1 h
  obtain ⟨l₂, h₂, h⟩ := bind_eq_ok_iff.1 h
  cases h
  exact ⟨rfl, (slots_setNext h₂).trans (slots_modifyNode h₁)⟩

theorem linkBefore_eq_ok (h : l.linkBefore slot before = .ok l') :
    l'.size = l.size + 1 ∧ l'.slots.size = l.slots.size := by
  obtain ⟨n, -, h⟩ := bind_eq_ok_iff.1 h
  obtain ⟨l₁, h₁, h⟩ := bind_eq_ok_iff.1 h
  obtain ⟨l₂, h₂, h⟩ := bind_eq_ok_iff.1 h
  obtain ⟨l₃, h₃, h⟩ := bind_eq_ok_iff.1 h
  cases h
  exact ⟨rfl, (slots_setNext h₃).trans ((slots_setPrev h₂).trans (slots_modifyNode h₁))⟩

theorem slots_unlink (h : l.unlink slot = .ok l') : l'.slots.size = l.slots.size := by
  obtain ⟨n, -, h⟩ := bind_eq_ok_iff.1 h
  obtain ⟨l₁, h₁, h⟩ := bind_eq_ok_iff.1 h
  obtain ⟨l₂, h₂, h⟩ := bind_eq_ok_iff.1 h
  obtain ⟨l₃, h₃, h⟩ := bind_eq_ok_iff.1 h
  cases h
  exact (slots_modifyNode h₃).trans ((slots_setPrev h₂).trans (slots_setNext h₁))

theorem slots_moveSlotToFront (h : l.moveSlotToFront slot = .ok l') :
    l'.slots.size = l.slots.size := by
  unfold moveSlotToFront at h
  split at h
  · cases h
    rfl
  · obtain ⟨l₁, h₁, h⟩ := bind_eq_ok_iff.1 h
    exact (linkFront_eq_ok h).2.trans (slots_unlink h₁)

theorem slots_release (h : l.release slot = .ok (v, l')) : l'.slots.size = l.slots.size := by
  unfold release at h
  split at h
  · cases h
    exact Array.size_modify
  · cases h

theorem slots_removeSlot (h : l.removeSlot slot = .ok (v, l')) : l'.slots.size = l.slots.size := by
  obtain ⟨l₁, h₁, h⟩ := bind_eq_ok_iff.1 h
  exact (slots_release h).trans (slots_unlink h₁)

theorem slots_removeAt (h : l.removeAt index = .ok (v, l')) : l'.slots.size = l.slots.size := by
  obtain ⟨slot, -, h⟩ := bind_eq_ok_iff.1 h
  exact slots_removeSlot h

theorem slots_removeFirst (h : l.removeFirst = .ok (v, l')) : l'.slots.size = l.slots.size := by
  unfold removeFirst at h
  split at h
  · exact slots_removeSlot h
  · cases h

theorem slots_removeLast (h : l.removeLast = .ok (v, l')) : l'.slots.size = l.slots.size := by
  unfold removeLast at h
  split at h
  · exact slots_removeSlot h
  · cases h

theorem slots_removeNode (h : l.removeNode id = .ok (v, l')) : l'.slots.size = l.slots.size := by
  obtain ⟨slot, -, h⟩ := bind_eq_ok_iff.1 h
  exact slots_removeSlot h

theorem slots_moveToFirst (h : l.moveToFirst index = .ok l') : l'.slots.size = l.slots.size := by
  obtain ⟨slot, -, h⟩ := bind_eq_ok_iff.1 h
  exact slots_moveSlotToFront h

theorem slots_moveNodeToFront (h : l.moveNodeToFront id = .ok l') :
    l'.slots.size = l.slots.size := by
  obtain ⟨slot, -, h⟩ := bind_eq_ok_iff.1 h
  exact slots_moveSlotToFront h

/-- A free slot is used again, if there is one. -/
theorem allocate_eq_ok (h : l.allocate v = .ok (id, l')) :
    l'.size = l.size ∧ l'.slots.size = l.slots.size + if l.free = [] then 1 else 0 := by
  unfold allocate at h
  split at h
  · rename_i free hfree
    split at h
    · cases h
      rw [hfree, if_neg (List.cons_ne_nil _ _)]
      exact ⟨rfl, Array.size_modify⟩
    · cases h
  · rename_i hfree
    cases h
    rw [hfree, if_pos rfl]
    exact ⟨rfl, Array.size_push _⟩

/-- An element that gets a slot and is then linked. -/
theorem grows_of_link (link : NodeId → RecencyList α → Except ListError (RecencyList α))
    (hlink : ∀ {id l l'}, link id l = .ok l' →
      l'.size = l.size + 1 ∧ l'.slots.size = l.slots.size)
    (h : (do
      let (id, l) ← l.allocate v
      pure (id, ← link id l)) = .ok (id, l')) : l.Grows l' := by
  obtain ⟨⟨id₁, l₁⟩, h₁, h⟩ := bind_eq_ok_iff.1 h
  obtain ⟨l₂, h₂, h⟩ := bind_eq_ok_iff.1 h
  cases h
  obtain ⟨hsize, hslots⟩ := allocate_eq_ok h₁
  obtain ⟨hsize', hslots'⟩ := hlink h₂
  exact ⟨hsize'.trans (congrArg (· + 1) hsize), hslots'.trans hslots⟩

theorem grows_pushFront (h : l.pushFront v = .ok (id, l')) : l.Grows l' :=
  grows_of_link (fun id l => l.linkFront id.slot) linkFront_eq_ok h

theorem grows_pushBack (h : l.pushBack v = .ok (id, l')) : l.Grows l' :=
  grows_of_link (fun id l => l.linkBack id.slot) linkBack_eq_ok h

theorem grows_insert (h : l.insert v index = .ok (id, l')) : l.Grows l' := by
  unfold insert at h
  by_cases hlt : l.size < index
  · rw [if_pos hlt] at h
    cases h
  · rw [if_neg hlt] at h
    dsimp only at h
    split at h
    · exact grows_pushFront h
    split at h
    · exact grows_pushBack h
    · obtain ⟨before, -, h⟩ := bind_eq_ok_iff.1 h
      exact grows_of_link (fun id l => l.linkBefore id.slot before) linkBefore_eq_ok h

/-! ## Slots are free or hold an element -/

theorem exists_content (h : slot < l.slots.size) :
    ∃ generation, l.content slot = some (generation, (l.node? slot).map (·.value)) := by
  rw [content, node?, Array.getElem?_eq_getElem h]
  exact ⟨_, rfl⟩

theorem lt_of_content {generation : Nat} {v? : Option α}
    (h : l.content slot = some (generation, v?)) :
    slot < l.slots.size ∧ (l.node? slot).map (·.value) = v? := by
  obtain ⟨n?, hs, hn⟩ := content_eq_some.1 h
  rw [node?, hs]
  exact ⟨(Array.getElem?_eq_some_iff.1 hs).1, hn⟩

theorem Stocks.mem_free_iff {ps : List (NodeId × α)} (h : l.Stocks ps) :
    slot ∈ l.free ↔ slot < l.slots.size ∧ l.node? slot = none := by
  rw [h.mem_free]
  constructor
  · rintro ⟨generation, hc⟩
    exact (lt_of_content hc).imp id Option.map_eq_none_iff.1
  · rintro ⟨hlt, hn⟩
    obtain ⟨generation, hc⟩ := exists_content hlt
    rw [hn] at hc
    exact ⟨generation, hc⟩

/-- The free list has every slot that holds no element once, and no other one. -/
theorem Holds.count_free (h : l.Holds xs []) (slot : Nat) :
    l.free.count slot = if slot < l.slots.size ∧ l.node? slot = none then 1 else 0 := by
  have hiff : slot ∈ l.free ↔ _ := h.stocks.mem_free_iff
  by_cases hfree : slot ∈ l.free
  · rw [if_pos (hiff.1 hfree), List.count_eq_one_of_mem h.stocks.free_nodup hfree]
  · rw [if_neg fun hs => hfree (hiff.2 hs), List.count_eq_zero_of_not_mem hfree]

/-- Every slot holds an element or is free, and not both. -/
theorem Holds.size_slots (h : l.Holds xs []) : l.slots.size = xs.length + l.free.length := by
  have hst := h.stocks
  rw [List.append_nil] at hst
  have hnodup : (xs.map (·.1.slot) ++ l.free).Nodup := by
    refine hst.distinct.append hst.free_nodup fun slot hx hfree => ?_
    obtain ⟨p, hp, rfl⟩ := List.mem_map.1 hx
    obtain ⟨generation, hc⟩ := hst.mem_free.1 hfree
    rw [hst.content p hp] at hc
    cases hc
  have hmem : ∀ slot, slot ∈ List.range l.slots.size ↔ slot ∈ xs.map (·.1.slot) ++ l.free := by
    intro slot
    rw [List.mem_range, List.mem_append]
    constructor
    · intro hlt
      cases hn : l.node? slot with
      | none => exact .inr (hst.mem_free_iff.2 ⟨hlt, hn⟩)
      | some n =>
        obtain ⟨generation, hc⟩ := exists_content hlt
        rw [hn] at hc
        exact .inl (hst.occupied hc)
    · rintro (hx | hfree)
      · obtain ⟨p, hp, rfl⟩ := List.mem_map.1 hx
        exact (lt_of_content (hst.content p hp)).1
      · exact (hst.mem_free_iff.1 hfree).1
  have hperm := (List.perm_ext_iff_of_nodup List.nodup_range hnodup).2 hmem
  have hlength := hperm.length_eq
  rwa [List.length_range, List.length_append, List.length_map] at hlength

/-- A list that grows has a slot more only if all of them were in use. -/
theorem Grows.slots_eq_max (hg : l.Grows l') (h : l.Holds xs []) :
    l'.slots.size = max l.slots.size l'.size := by
  have hslots := h.size_slots
  rw [hg.slots, hg.size, h.size]
  cases hfree : l.free with
  | nil =>
    rw [hfree, List.length_nil] at hslots
    rw [if_pos rfl]
    omega
  | cons slot free =>
    rw [hfree, List.length_cons] at hslots
    rw [if_neg (List.cons_ne_nil _ _)]
    omega

end RecencyList

/-! ## The slots are the most elements there ever were -/

namespace ListSession

open RecencyList

variable {α : Type} {s : ListSession α} {p : PlainList α} {xs : List (NodeId × α)}

/-- A call leaves the slots as many as they are, or as many as there are elements after it, if these
are more. -/
def SlotsAfter (s s' : ListSession α) : Prop :=
  s'.list.slots.size = s.list.slots.size ∨
    s'.list.slots.size = max s.list.slots.size s'.list.size

theorem slotsAfter_put {r : Except ListError (NodeId × RecencyList α)}
    (h : s.list.Holds xs []) (hr : ∀ {id l'}, r = .ok (id, l') → s.list.Grows l') :
    s.SlotsAfter (s.put r).2 := by
  cases r with
  | error e => exact .inl rfl
  | ok r => exact .inr ((hr rfl).slots_eq_max h)

theorem slotsAfter_take {r : Except ListError (α × RecencyList α)}
    (hr : ∀ {v l'}, r = .ok (v, l') → l'.slots.size = s.list.slots.size) :
    s.SlotsAfter (s.take r).2 := by
  cases r with
  | error e => exact .inl rfl
  | ok r => exact .inl (hr rfl)

theorem slotsAfter_move {r : Except ListError (RecencyList α)}
    (hr : ∀ {l'}, r = .ok l' → l'.slots.size = s.list.slots.size) :
    s.SlotsAfter (s.move r).2 := by
  cases r with
  | error e => exact .inl rfl
  | ok l' => exact .inl (hr rfl)

theorem slotsAfter_withHandle {number : Nat} {call : NodeId → ListReply α × ListSession α}
    (hcall : ∀ id, s.SlotsAfter (call id).2) : s.SlotsAfter (s.withHandle number call).2 := by
  unfold withHandle
  split
  · exact hcall _
  · exact .inl rfl

theorem slotsAfter_call (h : s.list.Holds xs []) (c : ListCall α) : s.SlotsAfter (s.call c).2 := by
  cases c with
  | insert v i => exact slotsAfter_put h grows_insert
  | pushFront v => exact slotsAfter_put h grows_pushFront
  | pushBack v => exact slotsAfter_put h grows_pushBack
  | removeAt i => exact slotsAfter_take slots_removeAt
  | removeFirst => exact slotsAfter_take slots_removeFirst
  | removeLast => exact slotsAfter_take slots_removeLast
  | removeNode n => exact slotsAfter_withHandle fun id => slotsAfter_take slots_removeNode
  | moveToFirst i => exact slotsAfter_move slots_moveToFirst
  | moveNodeToFront n => exact slotsAfter_withHandle fun id => slotsAfter_move slots_moveNodeToFront
  | containsNode n => exact slotsAfter_withHandle fun id => .inl rfl
  | get | first | last | size | isEmpty | toList => exact .inl rfl

/-- There are as many slots after a call as before it, or as elements after it. -/
theorem Matches.slots_call (h : Matches s p xs) (c : ListCall α) :
    (s.call c).2.list.slots.size = max s.list.slots.size (s.call c).2.list.size := by
  obtain ⟨-, zs, h'⟩ := h.call c
  have hle : (s.call c).2.list.size ≤ (s.call c).2.list.slots.size := by
    rw [h'.list.size]
    exact h'.list.length_le
  rcases slotsAfter_call h.list c with hslots | hslots
  · omega
  · exact hslots

theorem matches_run (calls : List (ListCall α)) :
    ∃ p xs, Matches (runCalls call new calls).2 p xs := by
  obtain ⟨-, xs, h⟩ := runCalls_eq (R := fun s p => ∃ xs, Matches (α := α) s p xs)
    (fun c ⟨_, h⟩ => h.call c) ⟨[], .new⟩ calls
  exact ⟨_, xs, h⟩

/-- The lengths that the list has had from the start of a run to its end. -/
def lengths (calls : List (ListCall α)) : Set Nat :=
  { n | ∃ before, before <+: calls ∧ (runCalls call new before).2.list.size = n }

theorem lengths_concat (calls : List (ListCall α)) (c : ListCall α) :
    lengths (calls ++ [c]) =
      insert (runCalls call new (calls ++ [c])).2.list.size (lengths calls) := by
  ext n
  constructor
  · rintro ⟨before, hb, rfl⟩
    rcases List.prefix_concat_iff.1 hb with rfl | hb
    · exact .inl rfl
    · exact .inr ⟨before, hb, rfl⟩
  · rintro (rfl | ⟨before, hb, rfl⟩)
    · exact ⟨_, List.prefix_rfl, rfl⟩
    · exact ⟨before, hb.trans (List.prefix_append _ _), rfl⟩

/-- A list has as many slots as it has ever had elements. -/
theorem isGreatest_slots (calls : List (ListCall α)) :
    IsGreatest (lengths calls) (runCalls call new calls).2.list.slots.size := by
  induction calls using List.reverseRecOn with
  | nil =>
    refine ⟨⟨[], List.prefix_rfl, rfl⟩, ?_⟩
    rintro n ⟨before, hb, rfl⟩
    rw [List.prefix_nil.1 hb]
    exact Nat.le_refl _
  | append_singleton calls c ih =>
    obtain ⟨p, xs, h⟩ := matches_run calls
    have hstep := h.slots_call c
    have hrun : (runCalls call new (calls ++ [c])).2 = ((runCalls call new calls).2.call c).2 :=
      runCalls_append _ _ _
    rw [lengths_concat, hrun, hstep, max_comm]
    exact ih.insert _

end ListSession

/-! ## The slots of a cache -/

namespace LruCache

open RecencyList

variable {α β : Type} [BEq α] [Hashable α] {c : LruCache α β} {items : List (LruItem α β)}
  {capacity : Nat} {ps : RecentPairs α β}

theorem slots_touch {id : NodeId} {recency : RecencyList α} (h : c.touch id = .ok recency) :
    recency.slots.size = c.recency.slots.size := by
  unfold touch at h
  split at h
  · rename_i recency' hmove
    cases h
    exact slots_moveNodeToFront hmove
  · cases h

theorem slots_get {k : α} {v? : Option β} {c' : LruCache α β} (h : c.get k = .ok (v?, c')) :
    c'.recency.slots.size = c.recency.slots.size := by
  unfold get at h
  split at h
  · cases h
    rfl
  · obtain ⟨recency, htouch, h⟩ := bind_eq_ok_iff.1 h
    cases h
    exact slots_touch htouch

theorem slots_remove {k : α} {v? : Option β} {c' : LruCache α β} (h : c.remove k = .ok (v?, c')) :
    c'.recency.slots.size = c.recency.slots.size := by
  unfold remove at h
  split at h
  · cases h
    rfl
  · split at h
    · cases h
    · rename_i hremove
      cases h
      exact slots_removeNode hremove

/-- Only a new key can take a slot more, before another key is driven out. -/
theorem slots_set {k : α} {k? : Option α} {v : β} {c' : LruCache α β} {xs : List (NodeId × α)}
    (hs : c.recency.Holds xs []) (h : c.set k v = .ok (k?, c')) :
    c'.recency.slots.size ≤ max c.recency.slots.size (xs.length + 1) := by
  unfold set at h
  split at h
  · obtain ⟨recency, htouch, h⟩ := bind_eq_ok_iff.1 h
    cases h
    exact (slots_touch htouch).symm ▸ Nat.le_max_left _ _
  · split at h
    · cases h
    rename_i node recency hpush
    have hgrows := grows_pushFront hpush
    have hslots : recency.slots.size = max c.recency.slots.size (xs.length + 1) := by
      rw [hgrows.slots_eq_max hs, hgrows.size, hs.size]
    dsimp only at h
    split at h
    · cases h
      exact Nat.le_of_eq hslots
    split at h
    · cases h
    rename_i evicted recency' hremove
    split at h
    · cases h
      exact Nat.le_of_eq ((slots_removeLast hremove).trans hslots)
    · cases h

theorem Refines.slots_call (h : Refines capacity c ps)
    (hslots : c.recency.slots.size ≤ capacity + 1) (k : CacheCall α β) :
    (c.call k).2.recency.slots.size ≤ capacity + 1 := by
  obtain ⟨items, hm, -, hb, -⟩ := h
  have hlength : (items.map LruItem.listed).length ≤ capacity := by rwa [List.length_map]
  cases k with
  | get k =>
    rw [LruCache.call]
    split
    · rename_i hget
      exact (slots_get hget).symm ▸ hslots
    · exact hslots
  | set k v =>
    rw [LruCache.call]
    split
    · rename_i hset
      exact (slots_set hm.recency hset).trans (max_le hslots (Nat.succ_le_succ hlength))
    · exact hslots
  | remove k =>
    rw [LruCache.call]
    split
    · rename_i hremove
      exact (slots_remove hremove).symm ▸ hslots
    · exact hslots
  | peek | contains | keys | size => exact hslots

variable [EquivBEq α] [LawfulHashable α]

/-- **Slots are never lost.** In every run of a recency list there are as many slots as the list has
ever had elements, and the free list has each slot without an element once and no other one. The
list of a cache never has more slots than the capacity and one. -/
theorem run_footprint (capacity : Nat) (positive : 1 ≤ capacity) :
    (∀ {γ : Type} (calls : List (ListCall γ)),
      let l := (runCalls ListSession.call ListSession.new calls).2.list
      IsGreatest (ListSession.lengths calls) l.slots.size ∧
        ∀ slot, l.free.count slot =
          if slot < l.slots.size ∧ l.node? slot = none then 1 else 0) ∧
    ∃ c : LruCache α β, new? capacity = .ok c ∧ ∀ calls : List (CacheCall α β),
      (runCalls call c calls).2.recency.slots.size ≤ capacity + 1 := by
  refine ⟨fun calls => ⟨ListSession.isGreatest_slots calls, ?_⟩,
    ⟨∅, .empty, capacity⟩, if_neg (Nat.ne_of_gt positive), fun calls => ?_⟩
  · obtain ⟨p, xs, h⟩ := ListSession.matches_run calls
    exact h.list.count_free
  · have hkeeps : (∃ ps, Refines capacity (runCalls call _ calls).2 ps) ∧
        (runCalls call _ calls).2.recency.slots.size ≤ capacity + 1 :=
      runCalls_keeps
        (P := fun c => (∃ ps, Refines capacity c ps) ∧ c.recency.slots.size ≤ capacity + 1)
        (fun k ⟨⟨_, h⟩, hslots⟩ => ⟨⟨_, (h.call k).2⟩, h.slots_call hslots k⟩)
        ⟨⟨[], .new capacity⟩, Nat.zero_le _⟩ calls
    exact hkeeps.2

/-- A list that had two elements has two slots; four keys pass through a cache with room for one,
and two slots are enough for them. -/
theorem footprint_of_capacity_one : 1 ≤ 1 ∧
    IsGreatest (ListSession.lengths [.pushFront 7, .pushBack 8, .removeFirst, .pushFront 9,
      .removeNode 1, .removeFirst]) 2 ∧
    ∃ c : LruCache Nat String, new? 1 = .ok c ∧
      let c := (runCalls call c [.set 1 "a", .set 2 "b", .remove 2, .set 3 "c", .set 4 "d"]).2
      c.recency.slots.size ≤ 2 := by
  obtain ⟨hlist, c, hc, hcache⟩ := run_footprint (α := Nat) (β := String) 1 (by decide)
  exact ⟨by decide, (hlist _).1, c, hc, hcache _⟩

end LruCache

end OrderDesk
