import Mathlib.Logic.Function.Iterate
import OrderDesk.Proofs.Cache.PlainSequence

/-!
# Following the links of a recency list

The occupied slots of a recency list stand in one line: the links to what comes next lead through
all of them from the head, each once, and the links to what comes before lead back from the tail
(`Threads`). On such a list both walks to a position meet at the same slot
(`WellFormed.slotAt_meets`).

No operation leaves this order, whatever positions and handles it is called with, those of other
lists too (`Fares`, one lemma for each operation). So no operation ever meets a link to a free slot,
the size is taken from only where it is not zero, and the walk from the head ends
(`ListSession.run_wellFormed`).
-/

namespace OrderDesk

namespace RecencyList

variable {α : Type}

/-! ## Links that lead through slots -/

/-- From `slot?` on, the links lead through these slots in their order. Each of them is occupied,
and the last one leads nowhere. -/
inductive Trail (l : RecencyList α) (link : Node α → Option Nat) : Option Nat → List Nat → Prop
  | stop : Trail l link none []
  | step {slot : Nat} {n : Node α} {slots : List Nat} : l.node? slot = some n →
    Trail l link (link n) slots → Trail l link (some slot) (slot :: slots)

variable {l : RecencyList α} {link : Node α → Option Nat} {slot? prev next : Option Nat}
  {slot index : Nat} {n : Node α} {slots : List Nat} {xs : List (NodeId × α)}

/-- Where the link of the element in `slot?` leads. -/
def hop (l : RecencyList α) (link : Node α → Option Nat) (slot? : Option Nat) : Option Nat :=
  slot?.bind fun slot => (l.node? slot).bind link

theorem node_of_node? (h : l.node? slot = some n) : l.node slot = .ok n := by rw [node, h]

theorem node?_of_node (h : l.node slot = .ok n) : l.node? slot = some n := by
  rw [node] at h
  split at h
  next hn => rw [hn, Except.ok.inj h]
  next => cases h

theorem Trail.head? (h : l.Trail link slot? slots) : slots.head? = slot? := by
  cases h <;> rfl

theorem Trail.occupied (h : l.Trail link slot? slots) : ∀ slot ∈ slots, ∃ n, l.node slot = .ok n := by
  induction h with
  | stop => nofun
  | step hn _ ih =>
    intro slot hslot
    rcases List.mem_cons.1 hslot with rfl | hslot
    · exact ⟨_, node_of_node? hn⟩
    · exact ih slot hslot

/-- A number of hops along a trail leads to the slot of that number, and nowhere beyond. -/
theorem Trail.iterate_hop (h : l.Trail link slot? slots) (steps : Nat) :
    (l.hop link)^[steps] slot? = slots[steps]? := by
  induction h generalizing steps with
  | stop =>
    induction steps with
    | zero => rfl
    | succ steps ih => exact ih
  | step hn _ ih =>
    cases steps with
    | zero => rfl
    | succ steps =>
      rw [Function.iterate_succ_apply, List.getElem?_cons_succ, ← ih steps]
      rw [hop, Option.bind_some, hn, Option.bind_some]

theorem Trail.forward (h : l.Trail Node.next slot? slots) (steps : Nat) :
    l.forward steps slot? = .ok slots[steps]? := by
  induction h generalizing steps with
  | stop => cases steps <;> rfl
  | step hn _ ih =>
    cases steps with
    | zero => rfl
    | succ steps =>
      rw [RecencyList.forward, node_of_node? hn, ok_bind, ih, List.getElem?_cons_succ]

theorem Trail.backward (h : l.Trail Node.prev slot? slots) (steps : Nat) :
    l.backward steps slot? = .ok slots[steps]? := by
  induction h generalizing steps with
  | stop => cases steps <;> rfl
  | step hn _ ih =>
    cases steps with
    | zero => rfl
    | succ steps =>
      rw [RecencyList.backward, node_of_node? hn, ok_bind, ih, List.getElem?_cons_succ]

/-- More fuel than the slots of a trail collects nothing more. -/
theorem Trail.collect (h : l.Trail Node.next slot? slots) {fuel fuel' : Nat}
    (hf : slots.length ≤ fuel) (hf' : slots.length ≤ fuel') :
    l.collect fuel slot? = l.collect fuel' slot? ∧
      (l.collect fuel slot?).length = slots.length := by
  induction h generalizing fuel fuel' with
  | stop => cases fuel <;> cases fuel' <;> exact ⟨rfl, rfl⟩
  | step hn _ ih =>
    rw [List.length_cons] at hf hf'
    obtain ⟨fuel, rfl⟩ := Nat.exists_eq_add_one_of_ne_zero (Nat.ne_of_gt (Nat.zero_lt_of_lt hf))
    obtain ⟨fuel', rfl⟩ := Nat.exists_eq_add_one_of_ne_zero (Nat.ne_of_gt (Nat.zero_lt_of_lt hf'))
    obtain ⟨heq, hlength⟩ := ih (Nat.le_of_succ_le_succ hf) (Nat.le_of_succ_le_succ hf')
    simp only [RecencyList.collect, hn]
    exact ⟨congrArg _ heq, congrArg (· + 1) hlength⟩

/-! ## The slots in one line -/

/-- The occupied slots, in this order from the head to the tail. -/
structure Threads (l : RecencyList α) (slots : List Nat) : Prop where
  forth : l.Trail Node.next l.head slots
  back : l.Trail Node.prev l.tail slots.reverse
  distinct : slots.Nodup
  size : slots.length = l.size
  covers : ∀ {slot n}, l.node slot = .ok n → slot ∈ slots

/-- The occupied slots stand in one line. -/
def WellFormed (l : RecencyList α) : Prop := ∃ slots, l.Threads slots

theorem Threads.head? (h : l.Threads slots) : slots.head? = l.head := h.forth.head?

theorem Threads.getLast? (h : l.Threads slots) : slots.getLast? = l.tail := by
  rw [← List.head?_reverse, h.back.head?]

theorem Threads.head_eq_none (h : l.Threads slots) : l.head = none ↔ l.size = 0 := by
  rw [← h.head?, ← h.size, List.head?_eq_none_iff, List.length_eq_zero_iff]

theorem Threads.tail_eq_none (h : l.Threads slots) : l.tail = none ↔ l.size = 0 := by
  rw [← h.getLast?, ← h.size, List.getLast?_eq_none_iff, List.length_eq_zero_iff]

theorem Threads.forward (h : l.Threads slots) (steps : Nat) :
    l.forward steps l.head = .ok slots[steps]? := h.forth.forward steps

/-- Steps from the tail lead to the same slots as those from the head. -/
theorem Threads.backward (h : l.Threads slots) (hi : index < l.size) :
    l.backward (l.size - 1 - index) l.tail = .ok slots[index]? := by
  rw [← h.size] at hi ⊢
  rw [h.back.backward, List.getElem?_reverse (by omega)]
  congr 2
  omega

theorem Threads.slotAt (h : l.Threads slots) (hi : index < slots.length) :
    l.slotAt index = .ok slots[index] := by
  have hlt : index < l.size := h.size ▸ hi
  have hget : slots[index]? = some slots[index] := List.getElem?_eq_getElem hi
  rw [RecencyList.slotAt, if_neg (Nat.not_le.2 hlt)]
  split
  · rw [h.forward, hget]; rfl
  · rw [h.backward hlt, hget]; rfl

theorem slotAt_of_size_le (h : l.size ≤ index) :
    l.slotAt index = .error (.invalidIndex index l.size) := by
  rw [RecencyList.slotAt, if_pos h]; rfl

/-! ## A sequence stands in one line -/

theorem Stores.node? {p : NodeId × α} (h : l.Stores p prev next) :
    l.node? p.1.slot = some ⟨p.2, prev, next⟩ := node?_of_node h.node

theorem Linked.trail_next (h : l.Linked prev xs none) :
    l.Trail Node.next (firstSlot xs none) (xs.map (·.1.slot)) := by
  induction xs generalizing prev with
  | nil => exact .stop
  | cons p xs ih => exact .step (Stores.node? h.1) (ih h.2)

theorem Linked.trail_prev (h : l.Linked none xs next) :
    l.Trail Node.prev (lastSlot none xs) (xs.map (·.1.slot)).reverse := by
  induction xs using List.reverseRecOn generalizing next with
  | nil => exact .stop
  | append_singleton xs p ih =>
    have hxs := (linked_append.1 h).1
    rw [lastSlot_append, List.map_append, List.reverse_append]
    exact .step h.stores.node? (ih hxs)

theorem Holds.threads (h : l.Holds xs []) : l.Threads (xs.map (·.1.slot)) where
  forth := h.head ▸ h.linked.trail_next
  back := h.tail ▸ h.linked.trail_prev
  distinct := h.nodup
  size := by rw [List.length_map, h.size]
  covers := by
    intro slot n hn
    obtain ⟨s, hs, hnode⟩ := Option.bind_eq_some_iff.1 (node?_of_node hn)
    have hcontent : l.content slot = some (s.generation, some n.value) := by
      rw [content, hs, Option.map_some, hnode, Option.map_some]
    have hmem := h.stocks.occupied hcontent
    rwa [List.append_nil] at hmem

/-- The element of an occupied slot is one of the sequence. -/
theorem Holds.exists_split_of_node (h : l.Holds xs []) (hn : l.node slot = .ok n) :
    ∃ as p bs, xs = as ++ p :: bs ∧ p.1.slot = slot := by
  obtain ⟨p, hp, hslot⟩ := List.mem_map.1 (h.threads.covers hn)
  obtain ⟨as, bs, hxs⟩ := List.append_of_mem hp
  exact ⟨as, p, bs, hxs, hslot⟩

/-! ## What is safe where the slots stand in one line -/

/-- Every access of an operation finds what it looks for. -/
structure Safe (l : RecencyList α) : Prop where
  /-- Either end of a list that is not empty is occupied. -/
  ends : ∀ slot, l.head = some slot ∨ l.tail = some slot → ∃ n, l.node slot = .ok n
  /-- The neighbours of an element are occupied. -/
  neighbours : ∀ slot n, l.node slot = .ok n → ∀ slot', n.prev = some slot' ∨ n.next = some slot' →
    ∃ n', l.node slot' = .ok n'
  /-- A position is beyond the end, or its slot is occupied. -/
  slotAt : ∀ index, l.slotAt index = .error (.invalidIndex index l.size) ∨
    ∃ slot n, l.slotAt index = .ok slot ∧ l.node slot = .ok n
  /-- An element can be taken out of the line, and the size is not zero then. -/
  unlink : ∀ slot n, l.node slot = .ok n → ∃ l', l.unlink slot = .ok l' ∧ l.size = l'.size + 1
  /-- The slots to use again are there, are free, and differ. -/
  free : l.free.Nodup ∧ ∀ slot ∈ l.free, slot < l.slots.size ∧ l.node slot = .error (.brokenLink slot)
  /-- The walk from the head is over after as many steps as there are elements. -/
  ended : l.forward l.size l.head = .ok none
  /-- However long the elements may be collected, they are those of `toList`. -/
  collect : ∀ fuel, l.size ≤ fuel → l.collect fuel l.head = l.toList
  length : l.toList.length = l.size

theorem Holds.neighbours (h : l.Holds xs []) (hn : l.node slot = .ok n) {slot' : Nat}
    (hslot : n.prev = some slot' ∨ n.next = some slot') : ∃ n', l.node slot' = .ok n' := by
  obtain ⟨as, p, bs, rfl, rfl⟩ := h.exists_split_of_node hn
  have hthere : ∀ q ∈ as ++ p :: bs, ∃ n', l.node q.1.slot = .ok n' := fun q hq =>
    h.threads.forth.occupied _ (List.mem_map_of_mem hq)
  obtain rfl : n = ⟨p.2, lastSlot none as, firstSlot bs none⟩ :=
    Except.ok.inj (hn.symm.trans h.stores.node)
  rcases hslot with hslot | hslot
  · rcases List.eq_nil_or_concat as with rfl | ⟨as, q, rfl⟩
    · cases hslot
    · rw [List.concat_eq_append] at hslot hthere
      rw [lastSlot_append] at hslot
      exact Option.some.inj hslot ▸ hthere q (by simp)
  · cases bs with
    | nil => cases hslot
    | cons q bs => exact Option.some.inj hslot ▸ hthere q (by simp)

theorem Holds.safe (h : l.Holds xs []) : l.Safe where
  ends := by
    intro slot hslot
    refine h.threads.forth.occupied slot ?_
    rcases hslot with hslot | hslot
    · exact List.mem_of_head? (h.threads.head?.trans hslot)
    · exact List.mem_of_getLast? (h.threads.getLast?.trans hslot)
  neighbours := fun _ _ hn _ hslot => h.neighbours hn hslot
  slotAt := by
    intro index
    rcases Nat.lt_or_ge index l.size with hi | hi
    · have hi : index < (xs.map (·.1.slot)).length := h.threads.size.symm ▸ hi
      obtain ⟨n, hn⟩ := h.threads.forth.occupied _ (List.getElem_mem hi)
      exact .inr ⟨_, n, h.threads.slotAt hi, hn⟩
    · exact .inl (slotAt_of_size_le hi)
  unlink := by
    intro slot n hn
    obtain ⟨as, p, bs, rfl, rfl⟩ := h.exists_split_of_node hn
    obtain ⟨l', he, h', -⟩ := h.unlink
    refine ⟨l', he, ?_⟩
    rw [h.size, h'.size, List.length_append, List.length_append, List.length_cons, Nat.add_assoc]
  free := by
    refine ⟨h.stocks.free_nodup, fun slot hslot => ?_⟩
    obtain ⟨generation, hc⟩ := h.stocks.mem_free.1 hslot
    obtain ⟨node?, hs, hnone⟩ := content_eq_some.1 hc
    refine ⟨(Array.getElem?_eq_some_iff.1 hs).1, ?_⟩
    rw [Option.map_eq_none_iff.1 hnone] at hs
    rw [node, RecencyList.node?, hs]
    rfl
  ended := by
    rw [h.threads.forward, List.getElem?_eq_none (Nat.le_of_eq h.threads.size)]
  collect := by
    intro fuel hf
    have hlength := h.threads.size
    refine (h.threads.forth.collect (hlength ▸ hf) ?_).1
    rw [List.length_map]
    exact h.length_le
  length := by rw [h.toList, List.length_map, h.size]

/-! ## Operations keep the line -/

/-- An operation leaves the slots in one line, or it is refused for another reason than a link to
a free slot. -/
def Fares {β : Type} (after : β → RecencyList α) : Except ListError β → Prop
  | .ok b => ∃ xs, (after b).Holds xs []
  | .error e => ∀ slot, e ≠ .brokenLink slot

theorem Fares.invalidIndex {β : Type} {after : β → RecencyList α} {length : Nat} :
    Fares after (.error (.invalidIndex index length)) := fun _ he => by cases he

theorem Fares.staleNode {β : Type} {after : β → RecencyList α} {id : NodeId} :
    Fares after (.error (.staleNode id)) := fun _ he => by cases he

/-- A position is that of an element or beyond the end. -/
theorem exists_split_or_le (xs : List (NodeId × α)) (index : Nat) :
    (∃ as p bs, xs = as ++ p :: bs ∧ as.length = index) ∨ xs.length ≤ index := by
  rcases Nat.lt_or_ge index xs.length with hi | hi
  · exact .inl (ListSession.exists_split hi)
  · exact .inr hi

/-- A handle is that of an element or of none. -/
theorem exists_split_or_notMem (xs : List (NodeId × α)) (id : NodeId) :
    (∃ as p bs, xs = as ++ p :: bs ∧ p.1 = id) ∨ id ∉ xs.map (·.1) := by
  by_cases hid : id ∈ xs.map (·.1)
  · obtain ⟨p, hp, rfl⟩ := List.mem_map.1 hid
    obtain ⟨as, bs, rfl⟩ := List.append_of_mem hp
    exact .inl ⟨as, p, bs, rfl, rfl⟩
  · exact .inr hid

theorem Holds.pushFront_fares (h : l.Holds xs []) (v : α) : Fares (·.2) (l.pushFront v) := by
  obtain ⟨id, l', he, h', -⟩ := h.pushFront v
  rw [he]
  exact ⟨_, h'⟩

theorem Holds.pushBack_fares (h : l.Holds xs []) (v : α) : Fares (·.2) (l.pushBack v) := by
  obtain ⟨id, l', he, h', -⟩ := h.pushBack v
  rw [he]
  exact ⟨_, h'⟩

theorem Holds.insert_fares (h : l.Holds xs []) (v : α) (index : Nat) :
    Fares (·.2) (l.insert v index) := by
  rcases Nat.lt_or_ge xs.length index with hi | hi
  · rw [h.insert_of_lt hi]
    exact .invalidIndex
  · obtain ⟨as, bs, rfl, rfl⟩ : ∃ as bs, xs = as ++ bs ∧ as.length = index :=
      ⟨xs.take index, xs.drop index, (List.take_append_drop index xs).symm,
        List.length_take_of_le hi⟩
    obtain ⟨id, l', he, h', -⟩ := h.insert v
    rw [he]
    exact ⟨_, h'⟩

theorem Holds.removeAt_fares (h : l.Holds xs []) (index : Nat) :
    Fares (·.2) (l.removeAt index) := by
  rcases exists_split_or_le xs index with ⟨as, p, bs, rfl, rfl⟩ | hi
  · obtain ⟨l', he, h', -⟩ := h.removeAt
    rw [he]
    exact ⟨_, h'⟩
  · rw [h.removeAt_of_le hi]
    exact .invalidIndex

theorem Holds.removeFirst_fares (h : l.Holds xs []) : Fares (·.2) l.removeFirst := by
  cases xs with
  | nil =>
    rw [RecencyList.removeFirst, h.head]
    exact .invalidIndex
  | cons p xs =>
    obtain ⟨l', he, h', -⟩ := h.removeFirst
    rw [he]
    exact ⟨_, h'⟩

theorem Holds.removeLast_fares (h : l.Holds xs []) : Fares (·.2) l.removeLast := by
  rcases List.eq_nil_or_concat xs with rfl | ⟨xs, p, rfl⟩
  · rw [RecencyList.removeLast, h.tail]
    exact .invalidIndex
  · rw [List.concat_eq_append] at h
    obtain ⟨l', he, h', -⟩ := h.removeLast
    rw [he]
    exact ⟨_, h'⟩

theorem Holds.removeNode_fares (h : l.Holds xs []) (id : NodeId) :
    Fares (·.2) (l.removeNode id) := by
  rcases exists_split_or_notMem xs id with ⟨as, p, bs, rfl, rfl⟩ | hid
  · obtain ⟨l', he, h', -⟩ := h.removeNode
    rw [he]
    exact ⟨_, h'⟩
  · rw [RecencyList.removeNode, h.resolve_of_notMem hid]
    exact .staleNode

theorem Holds.moveToFirst_fares (h : l.Holds xs []) (index : Nat) :
    Fares id (l.moveToFirst index) := by
  rcases exists_split_or_le xs index with ⟨as, p, bs, rfl, rfl⟩ | hi
  · obtain ⟨l', he, h', -⟩ := h.moveToFirst
    rw [he]
    exact ⟨_, h'⟩
  · rw [h.moveToFirst_of_le hi]
    exact .invalidIndex

theorem Holds.moveNodeToFront_fares (h : l.Holds xs []) (handle : NodeId) :
    Fares id (l.moveNodeToFront handle) := by
  rcases exists_split_or_notMem xs handle with ⟨as, p, bs, rfl, rfl⟩ | hid
  · obtain ⟨l', he, h', -⟩ := h.moveNodeToFront
    rw [he]
    exact ⟨_, h'⟩
  · rw [RecencyList.moveNodeToFront, h.resolve_of_notMem hid]
    exact .staleNode

end RecencyList

namespace ListSession

open RecencyList (Fares)

variable {α : Type} {s : ListSession α} {xs : List (NodeId × α)}

/-- The answer is not a broken link, and the slots stand in one line after it. -/
def Kept (r : ListReply α × ListSession α) : Prop :=
  (∀ slot, r.1 ≠ .brokenLink slot) ∧ ∃ xs, r.2.list.Holds xs []

theorem refusal_ne_brokenLink {e : ListError} (he : ∀ slot, e ≠ .brokenLink slot) (slot : Nat) :
    s.refusal e ≠ .brokenLink slot := by
  cases e with
  | brokenLink slot' => exact absurd rfl (he slot')
  | _ => nofun

theorem kept_put (h : s.list.Holds xs []) {r : Except ListError (NodeId × RecencyList α)}
    (hr : Fares (·.2) r) : Kept (s.put r) := by
  cases r with
  | ok r => exact ⟨nofun, hr⟩
  | error e => exact ⟨refusal_ne_brokenLink hr, xs, h⟩

theorem kept_take (h : s.list.Holds xs []) {r : Except ListError (α × RecencyList α)}
    (hr : Fares (·.2) r) : Kept (s.take r) := by
  cases r with
  | ok r => exact ⟨nofun, hr⟩
  | error e => exact ⟨refusal_ne_brokenLink hr, xs, h⟩

theorem kept_move (h : s.list.Holds xs []) {r : Except ListError (RecencyList α)}
    (hr : Fares id r) : Kept (s.move r) := by
  cases r with
  | ok list => exact ⟨nofun, hr⟩
  | error e => exact ⟨refusal_ne_brokenLink hr, xs, h⟩

theorem kept_withHandle (h : s.list.Holds xs []) {n : Nat}
    {call : NodeId → ListReply α × ListSession α} (hcall : ∀ id, Kept (call id)) :
    Kept (s.withHandle n call) := by
  rw [ListSession.withHandle]
  split
  next id _ => exact hcall id
  next => exact ⟨by rintro _ ⟨⟩, xs, h⟩

/-- Every call keeps the line, whosever handles the session knows. -/
theorem kept_call (h : s.list.Holds xs []) (c : ListCall α) : Kept (s.call c) := by
  cases c with
  | insert v i => exact kept_put h (h.insert_fares v i)
  | pushFront v => exact kept_put h (h.pushFront_fares v)
  | pushBack v => exact kept_put h (h.pushBack_fares v)
  | removeAt i => exact kept_take h (h.removeAt_fares i)
  | removeFirst => exact kept_take h h.removeFirst_fares
  | removeLast => exact kept_take h h.removeLast_fares
  | removeNode n => exact kept_withHandle h fun id => kept_take h (h.removeNode_fares id)
  | moveToFirst i => exact kept_move h (h.moveToFirst_fares i)
  | moveNodeToFront n => exact kept_withHandle h fun id => kept_move h (h.moveNodeToFront_fares id)
  | containsNode n => exact kept_withHandle h fun id => ⟨nofun, xs, h⟩
  | _ => exact ⟨nofun, xs, h⟩

theorem kept_run (foreign : List NodeId) (calls : List (ListCall α)) :
    (∀ r ∈ (runCalls call ⟨.empty, foreign⟩ calls).1, ∀ slot, r ≠ .brokenLink slot) ∧
      ∃ xs, (runCalls call ⟨.empty, foreign⟩ calls).2.list.Holds xs [] :=
  runCalls_answers (P := fun s : ListSession α => ∃ xs, s.list.Holds xs [])
    (Q := fun r : ListReply α => ∀ slot, r ≠ .brokenLink slot)
    (fun c ⟨_, h⟩ => kept_call h c) ⟨[], .empty⟩ calls

/-- **The slots of a list stand in one line after any operations**, called with any positions and
with any handles, those of the list and those of others (`foreign`). The links from the head lead
through as many slots as the list has elements, all that are occupied and each once, up to the tail,
and the links from the tail lead back through them; there is no head and no tail if and only if the
list is empty. So no operation meets a link to a free slot, each takes from a size that is not zero
only, and the walks end. -/
theorem run_wellFormed (foreign : List NodeId) (calls : List (ListCall α)) :
    let replies := (runCalls call ⟨.empty, foreign⟩ calls).1
    let l := (runCalls call ⟨.empty, foreign⟩ calls).2.list
    (∃ slots, l.Threads slots ∧ slots.head? = l.head ∧ slots.getLast? = l.tail) ∧
    (l.head = none ↔ l.size = 0) ∧ (l.tail = none ↔ l.size = 0) ∧
    l.Safe ∧ ∀ slot, .brokenLink slot ∉ replies := by
  intro replies l
  obtain ⟨hreplies, xs, h⟩ := kept_run foreign calls
  have hl : l.Threads (xs.map (·.1.slot)) := h.threads
  exact ⟨⟨_, hl, hl.head?, hl.getLast?⟩, hl.head_eq_none, hl.tail_eq_none, h.safe,
    fun slot hslot => hreplies _ hslot slot rfl⟩

end ListSession

namespace RecencyList

variable {α : Type} {l : RecencyList α}

/-! ## Both walks to a position -/

/-- **Both walks meet at every position.** A position beyond the end is refused, and no other;
at every other position the slot is the one that so many links from the head lead to, and the walks
from the head and from the tail both end there, the nearer one or not. -/
theorem WellFormed.slotAt_meets (h : l.WellFormed) (index : Nat) :
    (l.slotAt index = .error (.invalidIndex index l.size) ↔ l.size ≤ index) ∧
    (index < l.size → ∃ slot, l.slotAt index = .ok slot ∧
      (l.hop Node.next)^[index] l.head = some slot ∧
      l.forward index l.head = .ok (some slot) ∧
      l.backward (l.size - 1 - index) l.tail = .ok (some slot)) := by
  obtain ⟨slots, h⟩ := h
  have hfound : ∀ hi : index < slots.length, l.slotAt index = .ok slots[index] := h.slotAt
  refine ⟨⟨fun he => ?_, slotAt_of_size_le⟩, fun hlt => ?_⟩
  · refine Nat.not_lt.1 fun hlt => ?_
    rw [hfound (h.size ▸ hlt)] at he
    cases he
  · have hi : index < slots.length := h.size ▸ hlt
    have hget : slots[index]? = some slots[index] := List.getElem?_eq_getElem hi
    refine ⟨slots[index], hfound hi, ?_, ?_, ?_⟩
    · rw [h.forth.iterate_hop, hget]
    · rw [h.forward, hget]
    · rw [h.backward hlt, hget]

/-- Four elements in the slots 2, 1, 0 and 3, the second of which is used for the second time:
position 3 is reached from the tail, position 2 from the head. -/
theorem slotAt_meets_reused_slot :
    let l := (runCalls ListSession.call (.new : ListSession String) [.pushBack "a", .pushBack "b",
      .pushFront "c", .removeNode 1, .insert "d" 1, .pushBack "e"]).2.list
    l.WellFormed ∧ l.size = 4 ∧
    (∃ slot, l.slotAt 2 = .ok slot ∧ (l.hop Node.next)^[2] l.head = some slot ∧
      l.forward 2 l.head = .ok (some slot) ∧ l.backward 1 l.tail = .ok (some slot)) ∧
    (∃ slot, l.slotAt 3 = .ok slot ∧ (l.hop Node.next)^[3] l.head = some slot ∧
      l.forward 3 l.head = .ok (some slot) ∧ l.backward 0 l.tail = .ok (some slot)) ∧
    l.slotAt 4 = .error (.invalidIndex 4 4) := by
  intro l
  have hwf : l.WellFormed :=
    have ⟨_, xs, h⟩ := ListSession.kept_run [] _
    ⟨_, h.threads⟩
  exact ⟨hwf, rfl, (hwf.slotAt_meets 2).2 (by decide), (hwf.slotAt_meets 3).2 (by decide),
    (hwf.slotAt_meets 4).1.2 (by decide)⟩

end RecencyList

end OrderDesk
