import Mathlib.Data.List.Nodup
import OrderDesk.Cache.RecencyList

/-!
# The links of a recency list

A recency list is a plain sequence of elements with their handles. `Holds` ties the slots to that
sequence: the elements of the sequence are linked in its order, the elements that are loose have a
slot and no place yet, and every other slot is free. Allocating, linking, unlinking and releasing
move one element between the two lists (`Holds.allocate`, `Holds.linkFront`, `Holds.linkBack`,
`Holds.linkBefore`, `Holds.unlink`, `Holds.release`) and never meet a broken link.

A handle once given out is never given out again: the generation of a slot only grows (`Issued`).
-/

namespace OrderDesk

theorem ok_bind {ε β γ : Type} (b : β) (f : β → Except ε γ) : (Except.ok b >>= f) = f b := rfl

namespace RecencyList

variable {α : Type} {l l' l'' : RecencyList α} {p : NodeId × α} {prev next : Option Nat}
  {xs ys loose : List (NodeId × α)}

/-! ## What slots hold -/

/-- The generation and the element of a slot, its links apart. -/
def content (l : RecencyList α) (slot : Nat) : Option (Nat × Option α) :=
  l.slots[slot]?.map fun s => (s.generation, s.node.map (·.value))

/-- The slot of a handle holds its element, between these neighbours. -/
def Stores (l : RecencyList α) (p : NodeId × α) (prev next : Option Nat) : Prop :=
  l.slots[p.1.slot]? = some ⟨p.1.generation, some ⟨p.2, prev, next⟩⟩

/-- The handle has been given out: its slot has come to its generation. -/
def Issued (l : RecencyList α) (id : NodeId) : Prop :=
  ∃ generation v?, l.content id.slot = some (generation, v?) ∧ id.generation ≤ generation

theorem Stores.node (h : l.Stores p prev next) : l.node p.1.slot = .ok ⟨p.2, prev, next⟩ := by
  have hn : l.node? p.1.slot = some ⟨p.2, prev, next⟩ := by
    rw [node?, show l.slots[p.1.slot]? = _ from h]; rfl
  simp only [RecencyList.node, hn]

theorem exists_stores (h : l.content p.1.slot = some (p.1.generation, some p.2)) :
    ∃ prev next, l.Stores p prev next := by
  obtain ⟨s, hs, he⟩ := Option.map_eq_some_iff.1 h
  obtain ⟨generation, node?⟩ := s
  cases node? with
  | none => simp at he
  | some n =>
    obtain ⟨v, prev, next⟩ := n
    simp only [Option.map_some, Prod.mk.injEq, Option.some.injEq] at he
    refine ⟨prev, next, ?_⟩
    rw [Stores, hs, he.1, he.2]

/-- `l'` is `l` up to its ends and to the links of the slots in `touched`. -/
structure Relinks (l l' : RecencyList α) (touched : List Nat) : Prop where
  content : l'.content = l.content
  others : ∀ slot, slot ∉ touched → l'.slots[slot]? = l.slots[slot]?
  free : l'.free = l.free

theorem Relinks.trans {s t : List Nat} (h : l.Relinks l' s) (h' : l'.Relinks l'' t) :
    l.Relinks l'' (s ++ t) := by
  refine ⟨h'.content.trans h.content, fun slot hs => ?_, h'.free.trans h.free⟩
  rw [List.mem_append, not_or] at hs
  exact (h'.others slot hs.2).trans (h.others slot hs.1)

theorem Relinks.stores {touched : List Nat} (h : l.Relinks l' touched)
    (hp : p.1.slot ∉ touched) (hs : l.Stores p prev next) : l'.Stores p prev next :=
  (h.others _ hp).trans hs

/-- Changing the links of a stored element changes nothing else. -/
theorem exists_modifyNode (h : l.Stores p prev next) {f : Node α → Node α}
    (hf : ∀ n, (f n).value = n.value) :
    ∃ l', l.modifyNode p.1.slot f = .ok l' ∧
      l'.Stores p (f ⟨p.2, prev, next⟩).prev (f ⟨p.2, prev, next⟩).next ∧
      l.Relinks l' [p.1.slot] ∧ l'.head = l.head ∧ l'.tail = l.tail := by
  have hs : l.slots[p.1.slot]? = some ⟨p.1.generation, some ⟨p.2, prev, next⟩⟩ := h
  have hn : l.node? p.1.slot = some ⟨p.2, prev, next⟩ := by rw [node?, hs]; rfl
  have he : l.modifyNode p.1.slot f = .ok { l with slots := l.slots.modify p.1.slot fun s =>
      { s with node := some (f ⟨p.2, prev, next⟩) } } := by
    simp only [modifyNode, hn]
  have hv : f ⟨p.2, prev, next⟩ =
      ⟨p.2, (f ⟨p.2, prev, next⟩).prev, (f ⟨p.2, prev, next⟩).next⟩ :=
    congrArg (Node.mk · _ _) (hf ⟨p.2, prev, next⟩)
  refine ⟨_, he, ?_, ⟨?_, ?_, rfl⟩, rfl, rfl⟩
  · simp only [Stores, Array.getElem?_modify, if_true, hs]
    rw [← hv]
    rfl
  · funext slot
    simp only [RecencyList.content, Array.getElem?_modify]
    split
    · subst slot
      simp [hs, hf]
    · rfl
  · intro slot hslot
    rw [List.mem_singleton] at hslot
    simp only [Array.getElem?_modify, if_neg (Ne.symm hslot)]

/-! ## Links -/

/-- The slot of the first element, or what follows where there is none. -/
def firstSlot : List (NodeId × α) → Option Nat → Option Nat
  | [], next => next
  | p :: _, _ => some p.1.slot

/-- The slot of the last element, or what comes before where there is none. -/
def lastSlot : Option Nat → List (NodeId × α) → Option Nat
  | prev, [] => prev
  | _, p :: rest => lastSlot (some p.1.slot) rest

/-- The elements are linked in this order, the first behind `prev`, the last before `next`. -/
def Linked (l : RecencyList α) : Option Nat → List (NodeId × α) → Option Nat → Prop
  | _, [], _ => True
  | prev, p :: rest, next =>
    l.Stores p prev (firstSlot rest next) ∧ l.Linked (some p.1.slot) rest next

theorem firstSlot_append : firstSlot (xs ++ ys) next = firstSlot xs (firstSlot ys next) := by
  cases xs <;> rfl

theorem lastSlot_append : lastSlot prev (xs ++ ys) = lastSlot (lastSlot prev xs) ys := by
  induction xs generalizing prev with
  | nil => rfl
  | cons p xs ih => exact ih

theorem linked_append : l.Linked prev (xs ++ ys) next ↔
    l.Linked prev xs (firstSlot ys next) ∧ l.Linked (lastSlot prev xs) ys next := by
  induction xs generalizing prev with
  | nil => simp [Linked, lastSlot]
  | cons _ xs ih => simp only [List.cons_append, Linked, lastSlot, firstSlot_append, ih, and_assoc]

theorem Linked.frame (h : l.Linked prev xs next)
    (hs : ∀ p ∈ xs, l'.slots[p.1.slot]? = l.slots[p.1.slot]?) : l'.Linked prev xs next := by
  induction xs generalizing prev with
  | nil => trivial
  | cons _ xs ih =>
    refine ⟨(hs _ List.mem_cons_self).trans h.1, ih h.2 fun q hq => ?_⟩
    exact hs q (List.mem_cons_of_mem _ hq)

theorem Linked.relinks {touched : List Nat} (h : l.Linked prev xs next)
    (hr : l.Relinks l' touched) (hs : ∀ slot ∈ xs.map (·.1.slot), slot ∉ touched) :
    l'.Linked prev xs next :=
  h.frame fun _ hp => hr.others _ (hs _ (List.mem_map_of_mem hp))

/-- The last element of a stretch gets another successor. -/
theorem Linked.exists_setNext (h : l.Linked none xs next) (hd : (xs.map (·.1.slot)).Nodup)
    (hh : l.head = firstSlot xs next) (next' : Option Nat) :
    ∃ l', l.setNext (lastSlot none xs) next' = .ok l' ∧ l'.Linked none xs next' ∧
      l.Relinks l' (xs.map (·.1.slot)) ∧ l'.head = firstSlot xs next' ∧ l'.tail = l.tail := by
  rcases List.eq_nil_or_concat xs with rfl | ⟨ys, p, rfl⟩
  · exact ⟨_, rfl, trivial, ⟨rfl, fun _ _ => rfl, rfl⟩, rfl, rfl⟩
  · rw [List.concat_eq_append] at h hd hh ⊢
    obtain ⟨hys, hp, -⟩ := linked_append.1 h
    rw [List.map_append, List.nodup_append'] at hd
    obtain ⟨l', he, hp', hr, hhead, htail⟩ :=
      exists_modifyNode hp (f := fun n => { n with next := next' }) fun _ => rfl
    refine ⟨l', ?_, linked_append.2 ⟨hys.relinks hr fun slot hs => ?_, hp', trivial⟩, ?_, ?_, htail⟩
    · rw [lastSlot_append]; exact he
    · exact fun ht => hd.2.2 hs ht
    · refine ⟨hr.content, fun slot hs => hr.others slot fun ht => hs ?_, hr.free⟩
      rw [List.map_append]
      exact List.mem_append_right _ ht
    · rw [hhead, hh, firstSlot_append, firstSlot_append]; rfl

/-- The first element of a stretch gets another predecessor. -/
theorem Linked.exists_setPrev (h : l.Linked prev xs none) (hd : (xs.map (·.1.slot)).Nodup)
    (ht : l.tail = lastSlot prev xs) (prev' : Option Nat) :
    ∃ l', l.setPrev (firstSlot xs none) prev' = .ok l' ∧ l'.Linked prev' xs none ∧
      l.Relinks l' (xs.map (·.1.slot)) ∧ l'.tail = lastSlot prev' xs ∧ l'.head = l.head := by
  cases xs with
  | nil => exact ⟨_, rfl, trivial, ⟨rfl, fun _ _ => rfl, rfl⟩, rfl, rfl⟩
  | cons p xs =>
    obtain ⟨hp, hxs⟩ := h
    rw [List.map_cons, List.nodup_cons] at hd
    obtain ⟨l', he, hp', hr, hhead, htail⟩ :=
      exists_modifyNode hp (f := fun n => { n with prev := prev' }) fun _ => rfl
    refine ⟨l', he, ⟨hp', hxs.relinks hr fun slot hs ht => ?_⟩, ?_, htail.trans ht, hhead⟩
    · rw [List.mem_singleton] at ht
      exact hd.1 (ht ▸ hs)
    · refine ⟨hr.content, fun slot hs => hr.others slot fun ht => hs ?_, hr.free⟩
      rw [List.mem_singleton] at ht
      exact ht ▸ List.mem_cons_self

/-! ## The sequence -/

/-- The elements `ps` have a slot each, and every other slot is free. -/
structure Stocks (l : RecencyList α) (ps : List (NodeId × α)) : Prop where
  content : ∀ p ∈ ps, l.content p.1.slot = some (p.1.generation, some p.2)
  distinct : (ps.map (·.1.slot)).Nodup
  occupied : ∀ {slot generation v}, l.content slot = some (generation, some v) →
    slot ∈ ps.map (·.1.slot)
  free_nodup : l.free.Nodup
  mem_free : ∀ {slot}, slot ∈ l.free ↔ ∃ generation, l.content slot = some (generation, none)

theorem Stocks.relinks {ps : List (NodeId × α)} {touched : List Nat} (h : l.Stocks ps)
    (hr : l.Relinks l' touched) : l'.Stocks ps where
  content := hr.content ▸ h.content
  distinct := h.distinct
  occupied := hr.content ▸ h.occupied
  free_nodup := hr.free ▸ h.free_nodup
  mem_free := hr.content ▸ hr.free ▸ h.mem_free

theorem Stocks.perm {ps qs : List (NodeId × α)} (h : l.Stocks ps) (hp : ps.Perm qs) :
    l.Stocks qs where
  content q hq := h.content q (hp.mem_iff.2 hq)
  distinct := (hp.map _).nodup_iff.1 h.distinct
  occupied hc := (hp.map _).mem_iff.1 (h.occupied hc)
  free_nodup := h.free_nodup
  mem_free := h.mem_free

/-- The list is the sequence `xs`; the elements `loose` have a slot and no place in it. -/
structure Holds (l : RecencyList α) (xs loose : List (NodeId × α)) : Prop where
  stocks : l.Stocks (xs ++ loose)
  linked : l.Linked none xs none
  head : l.head = firstSlot xs none
  tail : l.tail = lastSlot none xs
  size : l.size = xs.length

theorem Holds.empty : (empty : RecencyList α).Holds [] [] where
  stocks :=
    { content := nofun
      distinct := List.nodup_nil
      occupied := by simp [content, RecencyList.empty]
      free_nodup := List.nodup_nil
      mem_free := by simp [content, RecencyList.empty] }
  linked := trivial
  head := rfl
  tail := rfl
  size := rfl

theorem Holds.nodup (h : l.Holds xs loose) : (xs.map (·.1.slot)).Nodup := by
  have hd := h.stocks.distinct
  rw [List.map_append] at hd
  exact hd.of_append_left

theorem Holds.notMem (h : l.Holds xs (p :: loose)) : p.1.slot ∉ xs.map (·.1.slot) := by
  have hd := h.stocks.distinct
  rw [List.map_append, List.nodup_append'] at hd
  exact fun hp => hd.2.2 hp List.mem_cons_self

/-- The handles of a sequence differ. -/
theorem Holds.nodup_handles (h : l.Holds xs loose) : (xs.map (·.1)).Nodup := by
  refine List.Nodup.of_map NodeId.slot ?_
  rw [List.map_map]
  exact h.nodup

/-- A loose element comes to the front. -/
theorem Holds.linkFront (h : l.Holds xs (p :: loose)) :
    ∃ l', l.linkFront p.1.slot = .ok l' ∧ l'.Holds (p :: xs) loose ∧ l'.content = l.content := by
  obtain ⟨prev, next, hp⟩ := exists_stores (h.stocks.content p (by simp))
  obtain ⟨l₁, he₁, hp₁, hr₁, hh₁, ht₁⟩ :=
    exists_modifyNode hp (f := fun n => { n with prev := none, next := l.head }) fun _ => rfl
  have hx₁ : l₁.Linked none xs none := h.linked.relinks hr₁ fun slot hs ht =>
    h.notMem (List.mem_singleton.1 ht ▸ hs)
  obtain ⟨l₂, he₂, hx₂, hr₂, ht₂, -⟩ :=
    hx₁.exists_setPrev h.nodup (ht₁.trans h.tail) (some p.1.slot)
  have hr := hr₁.trans hr₂
  refine ⟨{ l₂ with head := some p.1.slot, size := l.size + 1 }, ?_, ?_, hr.content⟩
  · rw [RecencyList.linkFront, he₁, ok_bind, h.head, he₂, ok_bind]; rfl
  · refine ⟨(h.stocks.perm List.perm_middle).relinks ⟨hr.content, hr.others, hr.free⟩,
      ⟨?_, ?_⟩, rfl,
      ht₂, congrArg (· + 1) h.size⟩
    · rw [← h.head]; exact hr₂.stores h.notMem hp₁
    · exact hx₂.frame fun _ _ => rfl

/-- A loose element comes to the end. -/
theorem Holds.linkBack (h : l.Holds xs (p :: loose)) :
    ∃ l', l.linkBack p.1.slot = .ok l' ∧ l'.Holds (xs ++ [p]) loose ∧ l'.content = l.content := by
  obtain ⟨prev, next, hp⟩ := exists_stores (h.stocks.content p (by simp))
  obtain ⟨l₁, he₁, hp₁, hr₁, hh₁, ht₁⟩ :=
    exists_modifyNode hp (f := fun n => { n with prev := l.tail, next := none }) fun _ => rfl
  have hx₁ : l₁.Linked none xs none := h.linked.relinks hr₁ fun slot hs ht =>
    h.notMem (List.mem_singleton.1 ht ▸ hs)
  obtain ⟨l₂, he₂, hx₂, hr₂, hh₂, -⟩ :=
    hx₁.exists_setNext h.nodup (hh₁.trans h.head) (some p.1.slot)
  have hr := hr₁.trans hr₂
  refine ⟨{ l₂ with tail := some p.1.slot, size := l.size + 1 }, ?_, ?_, hr.content⟩
  · rw [RecencyList.linkBack, he₁, ok_bind, h.tail, he₂, ok_bind]; rfl
  · refine ⟨?_, linked_append.2 ⟨hx₂.frame fun _ _ => rfl, ?_, trivial⟩, ?_, ?_, ?_⟩
    · rw [List.append_assoc]
      exact h.stocks.relinks ⟨hr.content, hr.others, hr.free⟩
    · rw [← h.tail]; exact hr₂.stores h.notMem hp₁
    · rw [firstSlot_append]; exact hh₂
    · rw [lastSlot_append]; rfl
    · simp [h.size]

/-- A loose element comes before one of the sequence. -/
theorem Holds.linkBefore {q : NodeId × α} (h : l.Holds (xs ++ q :: ys) (p :: loose)) :
    ∃ l', l.linkBefore p.1.slot q.1.slot = .ok l' ∧ l'.Holds (xs ++ p :: q :: ys) loose ∧
      l'.content = l.content := by
  obtain ⟨prev, next, hp⟩ := exists_stores (h.stocks.content p (by simp))
  have hnot := h.notMem
  have hd := h.nodup
  rw [List.map_append] at hnot hd
  rw [List.mem_append, not_or] at hnot
  rw [List.nodup_append'] at hd
  have hq := (linked_append.1 h.linked).2.1
  obtain ⟨l₁, he₁, hp₁, hr₁, hh₁, ht₁⟩ := exists_modifyNode hp
    (f := fun n => { n with prev := lastSlot none xs, next := some q.1.slot }) fun _ => rfl
  obtain ⟨hx₁, hy₁⟩ := linked_append.1 <| h.linked.relinks hr₁ fun slot hs ht =>
    h.notMem (List.mem_singleton.1 ht ▸ hs)
  have htail : l₁.tail = lastSlot (lastSlot none xs) (q :: ys) := by
    rw [ht₁, h.tail, lastSlot_append]
  obtain ⟨l₂, he₂, hy₂, hr₂, ht₂, hh₂⟩ := hy₁.exists_setPrev hd.2.1 htail (some p.1.slot)
  have hx₂ := hx₁.relinks hr₂ fun _ hs ht => hd.2.2 hs ht
  have hhead : l₂.head = firstSlot xs (some q.1.slot) := by
    rw [hh₂, hh₁, h.head, firstSlot_append]; rfl
  obtain ⟨l₃, he₃, hx₃, hr₃, hh₃, ht₃⟩ := hx₂.exists_setNext hd.1 hhead (some p.1.slot)
  have hy₃ := hy₂.relinks hr₃ fun _ hs ht => hd.2.2 ht hs
  have hp₃ := hr₃.stores hnot.1 (hr₂.stores hnot.2 hp₁)
  have hr := (hr₁.trans hr₂).trans hr₃
  refine ⟨{ l₃ with size := l.size + 1 }, ?_, ?_, hr.content⟩
  · rw [RecencyList.linkBefore, hq.node, ok_bind]
    dsimp only
    rw [he₁, ok_bind, show l₁.setPrev (some q.1.slot) (some p.1.slot) = _ from he₂, ok_bind, he₃,
      ok_bind]
    rfl
  · refine ⟨?_, linked_append.2 ⟨hx₃.frame fun _ _ => rfl, hp₃, hy₃.frame fun _ _ => rfl⟩,
      ?_, ?_, ?_⟩
    · refine (h.stocks.perm ?_).relinks ⟨hr.content, hr.others, hr.free⟩
      rw [List.append_assoc, List.append_assoc]
      exact List.Perm.append_left _ List.perm_middle
    · rw [firstSlot_append]; exact hh₃
    · rw [lastSlot_append]; exact ht₃.trans ht₂
    · simp [h.size]; omega

/-- An element leaves the sequence and keeps its slot. -/
theorem Holds.unlink (h : l.Holds (xs ++ p :: ys) loose) :
    ∃ l', l.unlink p.1.slot = .ok l' ∧ l'.Holds (xs ++ ys) (p :: loose) ∧
      l'.content = l.content := by
  obtain ⟨hx, hp, hy⟩ := linked_append.1 h.linked
  have hd := h.nodup
  rw [List.map_append, List.map_cons, List.nodup_append', List.nodup_cons] at hd
  obtain ⟨hdx, ⟨hpy, hdy⟩, hdis⟩ := hd
  have hpx : p.1.slot ∉ xs.map (·.1.slot) := fun hs => hdis hs List.mem_cons_self
  have hxy : ∀ slot ∈ xs.map (·.1.slot), slot ∉ ys.map (·.1.slot) :=
    fun _ hs ht => hdis hs (List.mem_cons_of_mem _ ht)
  have hhead : l.head = firstSlot xs (some p.1.slot) := by rw [h.head, firstSlot_append]; rfl
  obtain ⟨l₁, he₁, hx₁, hr₁, hh₁, ht₁⟩ := hx.exists_setNext hdx hhead (firstSlot ys none)
  have htail : l₁.tail = lastSlot (some p.1.slot) ys := by rw [ht₁, h.tail, lastSlot_append]; rfl
  obtain ⟨l₂, he₂, hy₂, hr₂, ht₂, hh₂⟩ := (hy.relinks hr₁ fun s hs ht => hxy s ht hs).exists_setPrev
    hdy htail (lastSlot none xs)
  have hx₂ := hx₁.relinks hr₂ hxy
  obtain ⟨l₃, he₃, -, hr₃, hh₃, ht₃⟩ := exists_modifyNode (hr₂.stores hpy (hr₁.stores hpx hp))
    (f := fun m => { m with prev := none, next := none }) fun _ => rfl
  have hx₃ := hx₂.relinks hr₃ fun _ hs ht => hpx (List.mem_singleton.1 ht ▸ hs)
  have hy₃ := hy₂.relinks hr₃ fun _ hs ht => hpy (List.mem_singleton.1 ht ▸ hs)
  have hr := (hr₁.trans hr₂).trans hr₃
  refine ⟨{ l₃ with size := l.size - 1 }, ?_, ?_, hr.content⟩
  · rw [RecencyList.unlink, hp.node, ok_bind, he₁, ok_bind, he₂, ok_bind, he₃, ok_bind]; rfl
  · refine ⟨?_, linked_append.2 ⟨hx₃.frame fun _ _ => rfl, hy₃.frame fun _ _ => rfl⟩, ?_, ?_, ?_⟩
    · refine (h.stocks.perm ?_).relinks ⟨hr.content, hr.others, hr.free⟩
      rw [List.append_assoc, List.append_assoc]
      exact List.Perm.append_left _ List.perm_middle.symm
    · rw [firstSlot_append]; exact (hh₃.trans hh₂).trans hh₁
    · rw [lastSlot_append]; exact ht₃.trans ht₂
    · simp [h.size]

/-! ## Slots are taken and freed -/

theorem content_eq_some {slot generation : Nat} {v? : Option α} :
    l.content slot = some (generation, v?) ↔
      ∃ node?, l.slots[slot]? = some ⟨generation, node?⟩ ∧ node?.map (·.value) = v? := by
  constructor
  · intro h
    obtain ⟨s, hs, he⟩ := Option.map_eq_some_iff.1 h
    obtain ⟨rfl, rfl⟩ := Prod.mk.inj he
    exact ⟨s.node, hs, rfl⟩
  · rintro ⟨node?, hs, rfl⟩
    rw [content, hs]; rfl

theorem content_congr {slot : Nat} (h : l'.slots[slot]? = l.slots[slot]?) :
    l'.content slot = l.content slot := by rw [content, content, h]

/-- A handle is given out for the first time, and none is taken back. -/
structure GivesOut (l l' : RecencyList α) (id : NodeId) : Prop where
  fresh : ¬l.Issued id
  issued : l'.Issued id
  keeps : ∀ {id'}, l.Issued id' → l'.Issued id'

theorem GivesOut.congr {id : NodeId} (h : l.GivesOut l' id) (hc : l''.content = l'.content) :
    l.GivesOut l'' id :=
  ⟨h.fresh, by rw [Issued, hc]; exact h.issued, fun hi => by rw [Issued, hc]; exact h.keeps hi⟩

section
variable {id : NodeId} {v : α}
  (hold : ∀ {generation v?}, l.content id.slot = some (generation, v?) →
    generation < id.generation ∧ v? = none)
  (hnew : l'.Stores (id, v) none none)
  (hothers : ∀ slot, slot ≠ id.slot → l'.slots[slot]? = l.slots[slot]?)
include hold hnew hothers

/-- A slot that holds no element can be given one. -/
theorem Holds.fill (h : l.Holds xs loose) (hfree : l'.free = l.free.erase id.slot)
    (hh : l'.head = l.head) (ht : l'.tail = l.tail) (hs : l'.size = l.size) :
    l'.Holds xs ((id, v) :: loose) := by
  have hcontent : l'.content id.slot = some (id.generation, some v) :=
    content_eq_some.2 ⟨_, hnew, rfl⟩
  have hne : ∀ p ∈ xs ++ loose, p.1.slot ≠ id.slot := by
    intro p hp heq
    have hc := h.stocks.content p hp
    rw [heq] at hc
    cases (hold hc).2
  refine ⟨?_, h.linked.frame fun p hp => hothers _ (hne p (List.mem_append_left _ hp)),
    hh.trans h.head, ht.trans h.tail, hs.trans h.size⟩
  have hp : ((id, v) :: (xs ++ loose)).Perm (xs ++ (id, v) :: loose) := List.perm_middle.symm
  refine Stocks.perm ?_ hp
  constructor
  · intro p hp
    rcases List.mem_cons.1 hp with rfl | hp
    · exact hcontent
    · exact (content_congr (hothers _ (hne p hp))).trans (h.stocks.content p hp)
  · refine List.nodup_cons.2 ⟨fun hm => ?_, h.stocks.distinct⟩
    obtain ⟨p, hp, heq⟩ := List.mem_map.1 hm
    exact hne p hp heq
  · intro slot generation w hc
    by_cases heq : slot = id.slot
    · exact heq ▸ List.mem_cons_self
    · rw [content_congr (hothers _ heq)] at hc
      exact List.mem_cons_of_mem _ (h.stocks.occupied hc)
  · rw [hfree]; exact h.stocks.free_nodup.erase _
  · intro slot
    rw [hfree, h.stocks.free_nodup.mem_erase_iff]
    by_cases heq : slot = id.slot
    · subst heq; simp [hcontent]
    · rw [content_congr (hothers _ heq), h.stocks.mem_free, and_iff_right heq]

theorem givesOut_of_stores : l.GivesOut l' id where
  fresh := fun ⟨_, _, hc, hle⟩ => absurd (hold hc).1 (Nat.not_lt.2 hle)
  issued := ⟨_, _, content_eq_some.2 ⟨_, hnew, rfl⟩, Nat.le_refl _⟩
  keeps := by
    rintro id' ⟨generation, v?, hc, hle⟩
    by_cases heq : id'.slot = id.slot
    · rw [heq] at hc
      refine ⟨_, _, heq ▸ content_eq_some.2 ⟨_, hnew, rfl⟩, ?_⟩
      exact Nat.le_trans hle (Nat.le_of_lt (hold hc).1)
    · exact ⟨generation, v?, (content_congr (hothers _ heq)).trans hc, hle⟩

end

/-- An element gets a slot under a handle that was never given out. -/
theorem Holds.allocate (h : l.Holds xs loose) (v : α) :
    ∃ id l', l.allocate v = .ok (id, l') ∧ l'.Holds xs ((id, v) :: loose) ∧ l.GivesOut l' id := by
  cases hf : l.free with
  | nil =>
    have hold : ∀ {generation v?}, l.content l.slots.size = some (generation, v?) →
        generation < 0 ∧ v? = none := by simp [content]
    have hnew : RecencyList.Stores { l with slots := l.slots.push ⟨0, some ⟨v, none, none⟩⟩ }
        (⟨l.slots.size, 0⟩, v) none none := Array.getElem?_push_size
    have hothers : ∀ slot, slot ≠ l.slots.size →
        (l.slots.push ⟨0, some ⟨v, none, none⟩⟩)[slot]? = l.slots[slot]? := by
      intro slot hne
      rw [Array.getElem?_push, if_neg hne]
    refine ⟨⟨l.slots.size, 0⟩, _, by simp only [RecencyList.allocate, hf], ?_,
      givesOut_of_stores hold hnew hothers⟩
    refine h.fill hold hnew hothers ?_ rfl rfl rfl
    simp [hf]
  | cons slot free =>
    obtain ⟨generation, hc⟩ := h.stocks.mem_free.1 (hf ▸ List.mem_cons_self)
    obtain ⟨node?, hs, hn⟩ := content_eq_some.1 hc
    have hold : ∀ {generation' v?}, l.content slot = some (generation', v?) →
        generation' < generation + 1 ∧ v? = none := by
      intro generation' v? hc'
      rw [hc] at hc'
      cases hc'
      exact ⟨Nat.lt_succ_self _, rfl⟩
    have hnew : RecencyList.Stores { l with
        slots := l.slots.modify slot fun _ => ⟨generation + 1, some ⟨v, none, none⟩⟩
        free } (⟨slot, generation + 1⟩, v) none none := by
      simp only [Stores, Array.getElem?_modify, if_true, hs]; rfl
    have hothers : ∀ slot', slot' ≠ slot → (l.slots.modify slot fun _ =>
        ⟨generation + 1, some ⟨v, none, none⟩⟩)[slot']? = l.slots[slot']? := by
      intro slot' hne
      rw [Array.getElem?_modify, if_neg (Ne.symm hne)]
    refine ⟨⟨slot, generation + 1⟩, _, by simp only [RecencyList.allocate, hf, hs], ?_,
      givesOut_of_stores hold hnew hothers⟩
    refine h.fill hold hnew hothers ?_ rfl rfl rfl
    simp [hf]

/-- Releasing the slot of a stored element changes no other slot. -/
theorem exists_release (h : l.Stores p prev next) :
    ∃ l', l.release p.1.slot = .ok (p.2, l') ∧
      l'.content p.1.slot = some (p.1.generation, none) ∧
      (∀ slot, slot ≠ p.1.slot → l'.slots[slot]? = l.slots[slot]?) ∧
      l'.free = p.1.slot :: l.free ∧ l'.head = l.head ∧ l'.tail = l.tail ∧ l'.size = l.size := by
  have hs : l.slots[p.1.slot]? = some ⟨p.1.generation, some ⟨p.2, prev, next⟩⟩ := h
  have hn : l.node? p.1.slot = some ⟨p.2, prev, next⟩ := by rw [node?, hs]; rfl
  have he : l.release p.1.slot = .ok (p.2, { l with
      slots := l.slots.modify p.1.slot fun s => { s with node := none }
      free := p.1.slot :: l.free }) := by
    simp only [RecencyList.release, hn]
  refine ⟨_, he, ?_, fun slot hne => ?_, rfl, rfl, rfl, rfl⟩
  · simp only [content, Array.getElem?_modify, if_true, hs]; rfl
  · rw [Array.getElem?_modify, if_neg (Ne.symm hne)]

/-- The slot of a loose element becomes free. -/
theorem Holds.release (h : l.Holds xs (p :: loose)) :
    ∃ l', l.release p.1.slot = .ok (p.2, l') ∧ l'.Holds xs loose ∧
      ∀ {id}, l.Issued id → l'.Issued id := by
  obtain ⟨prev, next, hp⟩ := exists_stores (h.stocks.content p (by simp))
  obtain ⟨l', he, hfreed, hothers, hfree, hh, ht, hs⟩ := exists_release hp
  have hst := h.stocks.perm List.perm_middle
  have hd := hst.distinct
  rw [List.map_cons, List.nodup_cons] at hd
  refine ⟨l', he, ⟨⟨?_, hd.2, ?_, ?_, ?_⟩, h.linked.frame fun q hq => hothers _ ?_,
    hh.trans h.head, ht.trans h.tail, hs.trans h.size⟩, ?_⟩
  · intro q hq
    have hne : q.1.slot ≠ p.1.slot := fun heq => hd.1 (heq ▸ List.mem_map_of_mem hq)
    exact (content_congr (hothers _ hne)).trans (hst.content q (List.mem_cons_of_mem _ hq))
  · intro slot generation w hc
    by_cases heq : slot = p.1.slot
    · rw [heq, hfreed] at hc; cases hc
    · rw [content_congr (hothers _ heq)] at hc
      exact (List.mem_cons.1 (hst.occupied hc)).resolve_left heq
  · rw [hfree]
    refine List.nodup_cons.2 ⟨fun hm => ?_, h.stocks.free_nodup⟩
    obtain ⟨generation, hc⟩ := h.stocks.mem_free.1 hm
    rw [hst.content p List.mem_cons_self] at hc
    cases hc
  · intro slot
    rw [hfree]
    by_cases heq : slot = p.1.slot
    · subst heq; simp [hfreed]
    · rw [content_congr (hothers _ heq), List.mem_cons, h.stocks.mem_free, or_iff_right heq]
  · exact fun heq => h.notMem (heq ▸ List.mem_map_of_mem hq)
  · rintro id ⟨generation, v?, hc, hle⟩
    by_cases heq : id.slot = p.1.slot
    · rw [heq, hst.content p List.mem_cons_self] at hc
      cases hc
      exact ⟨_, _, by rw [heq]; exact hfreed, hle⟩
    · exact ⟨generation, v?, (content_congr (hothers _ heq)).trans hc, hle⟩

/-! ## Moving and removing -/

/-- An element moves to the front, and the others keep their order. -/
theorem Holds.moveSlotToFront (h : l.Holds (xs ++ p :: ys) loose) :
    ∃ l', l.moveSlotToFront p.1.slot = .ok l' ∧ l'.Holds (p :: (xs ++ ys)) loose ∧
      l'.content = l.content := by
  rw [RecencyList.moveSlotToFront]
  split
  next heq =>
    -- the first slot is that of `p`, and no element but `p` has it
    cases xs with
    | nil => exact ⟨l, rfl, h, rfl⟩
    | cons q xs =>
      rw [h.head] at heq
      have hd := h.nodup
      rw [List.cons_append, List.map_cons, List.nodup_cons, List.map_append, List.map_cons] at hd
      refine absurd (List.mem_append_right _ ?_) hd.1
      exact Option.some.inj heq ▸ List.mem_cons_self
  next =>
    obtain ⟨l₁, he₁, h₁, hc₁⟩ := h.unlink
    obtain ⟨l₂, he₂, h₂, hc₂⟩ := h₁.linkFront
    exact ⟨l₂, by rw [he₁, ok_bind, he₂], h₂, hc₂.trans hc₁⟩

/-- An element leaves the list, and the others keep their order. -/
theorem Holds.removeSlot (h : l.Holds (xs ++ p :: ys) loose) :
    ∃ l', l.removeSlot p.1.slot = .ok (p.2, l') ∧ l'.Holds (xs ++ ys) loose ∧
      ∀ {id}, l.Issued id → l'.Issued id := by
  obtain ⟨l₁, he₁, h₁, hc₁⟩ := h.unlink
  obtain ⟨l₂, he₂, h₂, hi₂⟩ := h₁.release
  refine ⟨l₂, by rw [RecencyList.removeSlot, he₁, ok_bind, he₂], h₂, fun hi => hi₂ ?_⟩
  rw [Issued, hc₁]
  exact hi

end RecencyList

end OrderDesk
