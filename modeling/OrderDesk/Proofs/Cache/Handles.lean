import OrderDesk.Proofs.Cache.PlainSequence

/-!
# Handles of a recency list

A handle is good from the moment its element is put in until that element is taken out, however
elements are moved and slots are used again, and is stale ever after. Which element a call takes out
is read off the plain list, where elements carry the numbers of their handles: what has come in is
there or has left, once (`PlainList.run_perm`), so a handle whose element has left never finds an
element again (`ListSession.run_handles`).
-/

namespace OrderDesk

/-! ## Elements come and leave -/

namespace PlainList

variable {α : Type} {p : PlainList α} {i : Nat} {refusal : ListReply α}

/-- The element that a call puts in, under its number. -/
def arrival? (p : PlainList α) : ListCall α → Option (Nat × α)
  | .insert v i => if i ≤ p.items.length then some (p.given, v) else none
  | .pushFront v | .pushBack v => some (p.given, v)
  | _ => none

/-- The element that a call takes out, under its number. -/
def departure? (p : PlainList α) : ListCall α → Option (Nat × α)
  | .removeAt i => p.items[i]?
  | .removeFirst => p.items.head?
  | .removeLast => p.items.getLast?
  | .removeNode n => if n < p.given then p.items.find? (·.1 == n) else none
  | _ => none

/-- What `f` finds in the calls of a run, one after the other. -/
def gather (f : PlainList α → ListCall α → Option (Nat × α)) :
    PlainList α → List (ListCall α) → List (Nat × α)
  | _, [] => []
  | p, c :: cs => (f p c).toList ++ gather f (p.call c).2 cs

/-- The elements that come in, in their order. -/
def arrivals : PlainList α → List (ListCall α) → List (Nat × α) := gather arrival?

/-- The elements that leave, in the order in which they do. -/
def departures : PlainList α → List (ListCall α) → List (Nat × α) := gather departure?

theorem gather_append (f : PlainList α → ListCall α → Option (Nat × α)) (p : PlainList α)
    (cs cs' : List (ListCall α)) :
    gather f p (cs ++ cs') = gather f p cs ++ gather f (runCalls call p cs).2 cs' := by
  induction cs generalizing p with
  | nil => rfl
  | cons c cs ih =>
    rw [List.cons_append, gather, gather, ih, List.append_assoc]
    rfl

theorem takeAt_perm (p : PlainList α) (i : Nat) (refusal : ListReply α) :
    ((p.takeAt i refusal).2.items ++ p.items[i]?.toList).Perm p.items := by
  rw [takeAt]
  by_cases hi : i < p.items.length
  · rw [List.getElem?_eq_getElem hi]
    exact List.perm_append_comm.trans (List.getElem_cons_eraseIdx_perm hi)
  · rw [List.getElem?_eq_none (Nat.not_lt.1 hi)]
    exact .of_eq (List.append_nil _)

theorem moveAt_perm (p : PlainList α) (i : Nat) (refusal : ListReply α) :
    (p.moveAt i refusal).2.items.Perm p.items := by
  rw [moveAt]
  by_cases hi : i < p.items.length
  · rw [List.getElem?_eq_getElem hi]
    exact List.getElem_cons_eraseIdx_perm hi
  · rw [List.getElem?_eq_none (Nat.not_lt.1 hi)]

theorem putAt_perm {v : α} (hi : i ≤ p.items.length) :
    (p.putAt i v).2.items.Perm (p.items ++ [(p.given, v)]) :=
  (List.perm_insertIdx _ _ hi).trans (List.perm_append_singleton _ _).symm

/-- A call leaves the elements as they are, but for the one that comes in and the one that
leaves. -/
theorem call_perm (p : PlainList α) (c : ListCall α) :
    ((p.call c).2.items ++ (p.departure? c).toList).Perm
      (p.items ++ (p.arrival? c).toList) := by
  cases c with
  | insert v i =>
    simp only [call, departure?, arrival?, Option.toList_none, List.append_nil]
    split
    next hi => exact putAt_perm hi
    next => exact .of_eq (List.append_nil _).symm
  | pushFront v => exact (List.append_nil _).symm ▸ putAt_perm (Nat.zero_le _)
  | pushBack v => exact (List.append_nil _).symm ▸ putAt_perm (Nat.le_refl _)
  | removeAt i => exact (List.append_nil p.items).symm ▸ p.takeAt_perm i _
  | removeFirst =>
    rw [departure?, List.head?_eq_getElem?]
    exact (List.append_nil p.items).symm ▸ p.takeAt_perm 0 _
  | removeLast =>
    rw [departure?, List.getLast?_eq_getElem?]
    exact (List.append_nil p.items).symm ▸ p.takeAt_perm _ _
  | removeNode n =>
    simp only [call, departure?, arrival?, Option.toList_none, List.append_nil]
    split
    next =>
      rw [List.find?_eq_getElem?_findIdx]
      exact p.takeAt_perm _ _
    next => exact .of_eq (List.append_nil _)
  | moveToFirst i => exact (p.moveAt_perm i _).append_right _
  | moveNodeToFront n =>
    rw [call]
    split
    next => exact (p.moveAt_perm _ _).append_right _
    next => exact .refl _
  | containsNode n =>
    rw [call]
    split <;> exact .refl _
  | _ => exact .refl _

/-- **What has come in is there or has left.** -/
theorem run_perm (p : PlainList α) (cs : List (ListCall α)) :
    ((runCalls call p cs).2.items ++ p.departures cs).Perm (p.items ++ p.arrivals cs) := by
  induction cs generalizing p with
  | nil => exact .refl _
  | cons c cs ih =>
    have hcall := p.call_perm c
    have hrest := ih (p.call c).2
    rw [departures, arrivals] at hrest ⊢
    rw [gather, gather]
    calc (runCalls call p (c :: cs)).2.items ++
          ((p.departure? c).toList ++ gather departure? (p.call c).2 cs)
      _ |>.Perm ((p.departure? c).toList ++
          ((runCalls call (p.call c).2 cs).2.items ++ gather departure? (p.call c).2 cs)) :=
        List.perm_append_comm_assoc _ _ _
      _ |>.Perm ((p.departure? c).toList ++
          ((p.call c).2.items ++ gather arrival? (p.call c).2 cs)) := hrest.append_left _
      _ |>.Perm (((p.call c).2.items ++ (p.departure? c).toList) ++
          gather arrival? (p.call c).2 cs) := by
        rw [List.append_assoc]
        exact List.perm_append_comm_assoc _ _ _
      _ |>.Perm ((p.items ++ (p.arrival? c).toList) ++ gather arrival? (p.call c).2 cs) :=
        hcall.append_right _
      _ |>.Perm (p.items ++ ((p.arrival? c).toList ++ gather arrival? (p.call c).2 cs)) :=
        .of_eq (List.append_assoc _ _ _)

theorem given_call (p : PlainList α) (c : ListCall α) :
    (p.call c).2.given = p.given + (p.arrival? c).toList.length ∧
      ∀ x ∈ p.arrival? c, x.1 = p.given := by
  have hnew : ∀ v : α, ∀ x ∈ some (p.given, v), x.1 = p.given := by
    intro v x hx
    rw [← Option.some.inj hx]
  have hnone : ∀ x ∈ (none : Option (Nat × α)), x.1 = p.given := by
    intro x hx
    cases hx
  cases c with
  | insert v i =>
    rw [call, arrival?]
    split
    next => exact ⟨rfl, hnew v⟩
    next => exact ⟨rfl, hnone⟩
  | pushFront v | pushBack v => exact ⟨rfl, hnew v⟩
  | removeAt i | removeFirst | removeLast =>
    rw [call, takeAt]
    split <;> exact ⟨rfl, hnone⟩
  | moveToFirst i =>
    rw [call, moveAt]
    split <;> exact ⟨rfl, hnone⟩
  | removeNode n =>
    rw [call, takeAt]
    split
    next => split <;> exact ⟨rfl, hnone⟩
    next => exact ⟨rfl, hnone⟩
  | moveNodeToFront n =>
    rw [call, moveAt]
    split
    next => split <;> exact ⟨rfl, hnone⟩
    next => exact ⟨rfl, hnone⟩
  | containsNode n =>
    rw [call]
    split <;> exact ⟨rfl, hnone⟩
  | _ => exact ⟨rfl, hnone⟩

/-- The elements are numbered as they come in. -/
theorem numbers_arrivals (p : PlainList α) (cs : List (ListCall α)) :
    (runCalls call p cs).2.given = p.given + (p.arrivals cs).length ∧
      (p.arrivals cs).map (·.1) = List.range' p.given (p.arrivals cs).length := by
  induction cs generalizing p with
  | nil => exact ⟨rfl, rfl⟩
  | cons c cs ih =>
    obtain ⟨hgiven, hnumber⟩ := p.given_call c
    obtain ⟨hrun, hrest⟩ := ih (p.call c).2
    have hcons : p.arrivals (c :: cs) = (p.arrival? c).toList ++ (p.call c).2.arrivals cs := rfl
    rw [hcons, List.length_append, List.map_append, hrest]
    constructor
    · change (runCalls call (p.call c).2 cs).2.given = _
      rw [hrun, hgiven, Nat.add_assoc]
    · cases hc : p.arrival? c with
      | none =>
        rw [hc] at hgiven
        rw [hgiven]
        simp
      | some x =>
        rw [hc] at hgiven
        rw [hgiven, Option.toList_some, List.map_singleton, hnumber x hc, List.length_singleton,
          Nat.add_comm 1, List.range'_succ]
        rfl

theorem exists_arrival {cs : List (ListCall α)} {n : Nat}
    (hn : n < (new.arrivals cs).length) :
    ∃ v, (new.arrivals cs)[n]? = some (n, v) := by
  have hnumbers := congrArg (·[n]?) (new.numbers_arrivals cs).2
  rw [List.getElem?_map, List.getElem?_range' hn] at hnumbers
  obtain ⟨x, hx, hnumber⟩ := Option.map_eq_some_iff.1 hnumbers
  refine ⟨x.2, hx.trans (congrArg some (Prod.ext ?_ rfl))⟩
  exact hnumber.trans (by simp [new])

/-- No number stands for two elements. -/
theorem nodup_numbers (cs : List (ListCall α)) :
    (((runCalls call new cs).2.items ++ new.departures cs).map (·.1)).Nodup := by
  rw [((new.run_perm cs).map _).nodup_iff]
  change ((new.arrivals cs).map (·.1)).Nodup
  rw [(new.numbers_arrivals cs).2]
  exact List.nodup_range'

end PlainList

/-! ## The elements with their handles -/

namespace RecencyList

variable {α : Type} {l : RecencyList α} {prev : Option Nat} {xs : List (NodeId × α)}

/-- The elements from a slot on, each with its handle; `fuel` bounds their number. -/
def walk (l : RecencyList α) : (fuel : Nat) → (slot? : Option Nat) → List (NodeId × α)
  | 0, _ => []
  | _, none => []
  | fuel + 1, some slot =>
    match l.slots[slot]? with
    | some ⟨generation, some n⟩ => (⟨slot, generation⟩, n.value) :: l.walk fuel n.next
    | _ => []

/-- The elements from front to back, each with its handle. -/
def elements (l : RecencyList α) : List (NodeId × α) := l.walk l.slots.size l.head

theorem walk_eq {fuel : Nat} (h : l.Linked prev xs none) (hf : xs.length ≤ fuel) :
    l.walk fuel (firstSlot xs none) = xs := by
  induction xs generalizing prev fuel with
  | nil => cases fuel <;> rfl
  | cons p xs ih =>
    obtain ⟨fuel, rfl⟩ := Nat.exists_eq_add_one_of_ne_zero (Nat.ne_of_gt (Nat.zero_lt_of_lt hf))
    rw [firstSlot, walk, show l.slots[p.1.slot]? = _ from h.1]
    exact congrArg (p :: ·) (ih h.2 (Nat.le_of_succ_le_succ hf))

theorem Holds.elements (h : l.Holds xs []) : l.elements = xs := by
  rw [RecencyList.elements, h.head]
  exact walk_eq h.linked h.length_le

end RecencyList

namespace ListSession

variable {α : Type} {s : ListSession α} {p : PlainList α} {xs : List (NodeId × α)}
  {n : Nat} {id : NodeId} {v : α}

/-- The elements from front to back, each under the number of its handle. -/
def items (s : ListSession α) : List (Nat × α) := s.list.elements.map s.label

theorem Matches.items_eq (h : Matches s p xs) : s.items = p.items := by
  rw [ListSession.items, h.list.elements, h.items]

/-! ## Good and stale handles -/

/-- The handle is good: a call with it concerns one element, and leaves the others in their
order. -/
structure Live (s : ListSession α) (n : Nat) (id : NodeId) (v : α) : Prop where
  contains : s.list.containsNode id = true
  acts : ∃ as bs, s.items = as ++ (n, v) :: bs ∧
    (∃ t, s.call (.moveNodeToFront n) = (.moved, t) ∧ t.items = (n, v) :: (as ++ bs)) ∧
    ∃ t, s.call (.removeNode n) = (.removed v, t) ∧ t.items = as ++ bs

/-- The handle is stale: a call with it says so and changes nothing. -/
structure Stale (s : ListSession α) (n : Nat) (id : NodeId) : Prop where
  contains : s.list.containsNode id = false
  move : s.list.moveNodeToFront id = .error (.staleNode id)
  remove : s.list.removeNode id = .error (.staleNode id)
  moveNodeToFront : s.call (.moveNodeToFront n) = (.stale n, s)
  removeNode : s.call (.removeNode n) = (.stale n, s)

theorem Matches.mem_iff (h : Matches s p xs) (hid : s.handles[n]? = some id) :
    id ∈ xs.map (·.1) ↔ n ∈ p.items.map (·.1) := by
  have hn := (List.getElem?_eq_some_iff.1 hid).1
  have hget : s.handles[n] = id := (List.getElem?_eq_some_iff.1 hid).2
  have hmem : id ∈ s.handles := hget ▸ List.getElem_mem hn
  have hnumber : s.number id = n := hget ▸ h.nodup.idxOf_getElem n hn
  rw [h.items, List.map_map, List.mem_map, List.mem_map]
  constructor
  · rintro ⟨x, hx, rfl⟩
    exact ⟨x, hx, hnumber⟩
  · rintro ⟨x, hx, heq⟩
    exact ⟨x, hx, (number_inj hmem).1 (heq.trans hnumber.symm)⟩

theorem Matches.live (h : Matches s p xs) (hid : s.handles[n]? = some id)
    (hv : (n, v) ∈ p.items) : s.Live n id v := by
  have hmem : id ∈ xs.map (·.1) := (h.mem_iff hid).2 (List.mem_map_of_mem hv)
  have hn : n < p.given := h.given ▸ (List.getElem?_eq_some_iff.1 hid).1
  rw [h.items] at hv
  obtain ⟨x, hx, hlabel⟩ := List.mem_map.1 hv
  obtain ⟨as, bs, rfl⟩ := List.append_of_mem hx
  have hitems := h.items
  rw [List.map_append, List.map_cons, hlabel] at hitems
  have hnumber : s.number x.1 = n := congrArg Prod.fst hlabel
  have hposition : p.position n = as.length := hnumber ▸ h.position
  have hget : p.items[as.length]? = some (n, v) := by simp [hitems]
  have herase : p.items.eraseIdx as.length = as.map s.label ++ bs.map s.label := by
    rw [h.eraseIdx, List.map_append]
  refine ⟨by rw [h.list.containsNode, decide_eq_true hmem], _, _, h.items_eq.trans hitems, ?_, ?_⟩
  · obtain ⟨hreply, zs, hzs⟩ := h.call (.moveNodeToFront n)
    refine ⟨(s.call (.moveNodeToFront n)).2, Prod.ext ?_ rfl, ?_⟩
    · rw [hreply, PlainList.call, if_pos hn, hposition, PlainList.moveAt, hget]
    · rw [hzs.items_eq, PlainList.call, if_pos hn, hposition, PlainList.moveAt, hget, herase]
  · obtain ⟨hreply, zs, hzs⟩ := h.call (.removeNode n)
    refine ⟨(s.call (.removeNode n)).2, Prod.ext ?_ rfl, ?_⟩
    · rw [hreply, PlainList.call, if_pos hn, hposition, PlainList.takeAt, hget]
    · rw [hzs.items_eq, PlainList.call, if_pos hn, hposition, PlainList.takeAt, hget, herase]

theorem Matches.stale (h : Matches s p xs) (hid : s.handles[n]? = some id)
    (hn : n ∉ p.items.map (·.1)) : s.Stale n id := by
  have hmem : id ∉ xs.map (·.1) := mt (h.mem_iff hid).1 hn
  have hmove : s.list.moveNodeToFront id = .error (.staleNode id) := by
    rw [RecencyList.moveNodeToFront, h.list.resolve_of_notMem hmem]
    rfl
  have hremove : s.list.removeNode id = .error (.staleNode id) := by
    rw [RecencyList.removeNode, h.list.resolve_of_notMem hmem]
    rfl
  have hnumber : s.number id = n := by
    obtain ⟨hlt, rfl⟩ := List.getElem?_eq_some_iff.1 hid
    exact h.nodup.idxOf_getElem n hlt
  refine ⟨by rw [h.list.containsNode, decide_eq_false hmem], hmove, hremove, ?_, ?_⟩
  · rw [ListSession.call, ListSession.withHandle, hid]
    dsimp only
    rw [hmove, ListSession.move, refusal, hnumber]
  · rw [ListSession.call, ListSession.withHandle, hid]
    dsimp only
    rw [hremove, ListSession.take, refusal, hnumber]

/-! ## Over a run -/

theorem prefix_put (s : ListSession α) (r : Except ListError (NodeId × RecencyList α)) :
    s.handles <+: (s.put r).2.handles := by
  cases r with
  | ok r => exact List.prefix_append s.handles [r.1]
  | error e => exact List.prefix_rfl

theorem prefix_take (s : ListSession α) (r : Except ListError (α × RecencyList α)) :
    s.handles <+: (s.take r).2.handles := by
  cases r <;> exact List.prefix_rfl

theorem prefix_move (s : ListSession α) (r : Except ListError (RecencyList α)) :
    s.handles <+: (s.move r).2.handles := by
  cases r <;> exact List.prefix_rfl

theorem prefix_withHandle {call : NodeId → ListReply α × ListSession α}
    (hcall : ∀ id, s.handles <+: (call id).2.handles) :
    s.handles <+: (s.withHandle n call).2.handles := by
  rw [ListSession.withHandle]
  split
  next id _ => exact hcall id
  next => exact List.prefix_rfl

/-- Handles once given keep their numbers. -/
theorem prefix_call (s : ListSession α) (c : ListCall α) : s.handles <+: (s.call c).2.handles := by
  cases c with
  | insert v i => exact prefix_put ..
  | pushFront v => exact prefix_put ..
  | pushBack v => exact prefix_put ..
  | removeAt i => exact prefix_take ..
  | removeFirst => exact prefix_take ..
  | removeLast => exact prefix_take ..
  | removeNode n => exact prefix_withHandle fun id => prefix_take ..
  | moveToFirst i => exact prefix_move ..
  | moveNodeToFront n => exact prefix_withHandle fun id => prefix_move ..
  | containsNode n => exact prefix_withHandle fun id => List.prefix_rfl
  | _ => exact List.prefix_rfl

theorem prefix_run (s : ListSession α) (calls : List (ListCall α)) :
    s.handles <+: (runCalls call s calls).2.handles :=
  runCalls_keeps (P := fun t : ListSession α => s.handles <+: t.handles)
    (fun c h => h.trans (prefix_call _ c)) List.prefix_rfl calls

theorem exists_matches (calls : List (ListCall α)) :
    ∃ xs, Matches (runCalls call new calls).2 (runCalls PlainList.call .new calls).2 xs :=
  (runCalls_eq (R := fun s p => ∃ xs, Matches (α := α) s p xs)
    (fun c ⟨_, h⟩ => h.call c) ⟨[], .new⟩ calls).2

/-- **A handle finds its own element until that leaves, and nothing after that.** The handles that
insertions give are distinct. Every element that came in is there or has left, and it leaves once.
As long as the element of a handle is there, the handle is good; once it has left, the handle is
stale whatever is called from then on. -/
theorem run_handles (calls : List (ListCall α)) :
    let s := (runCalls call new calls).2
    let came := PlainList.new.arrivals calls
    let left := PlainList.new.departures calls
    s.handles.Nodup ∧ s.handles.length = came.length ∧
    s.items.map (·.2) = s.list.toList ∧ (s.items ++ left).Perm came ∧ left.Nodup ∧
    ∀ n id, s.handles[n]? = some id → ∃ v, came[n]? = some (n, v) ∧
      ((n, v) ∉ left → s.Live n id v) ∧
      ((n, v) ∈ left → ∀ later, (runCalls call s later).2.Stale n id) := by
  intro s came left
  obtain ⟨xs, h⟩ := exists_matches calls
  have hperm : (s.items ++ left).Perm came := by
    rw [show s.items = _ from h.items_eq]
    exact PlainList.new.run_perm calls
  obtain ⟨hgiven, hnumbers⟩ := PlainList.new.numbers_arrivals calls
  have hlength : s.handles.length = came.length :=
    h.given.symm.trans (hgiven.trans (Nat.zero_add _))
  have hleft : left.Nodup := by
    have hcame := (PlainList.nodup_numbers calls).of_map
    exact hcame.of_append_right
  have hvalues : s.items.map (·.2) = s.list.toList := by
    rw [h.list.toList, ListSession.items, h.list.elements, List.map_map]
    rfl
  refine ⟨h.nodup, hlength, hvalues, hperm, hleft, fun n id hid => ?_⟩
  have harrived : n < came.length := hlength ▸ (List.getElem?_eq_some_iff.1 hid).1
  obtain ⟨v, hcame⟩ := PlainList.exists_arrival harrived
  refine ⟨v, hcame, fun hnot => ?_, fun hin later => ?_⟩
  · have hmem := hperm.mem_iff.2 (List.mem_of_getElem? hcame)
    have hitem := (List.mem_append.1 hmem).resolve_right hnot
    exact h.live hid (h.items_eq ▸ hitem)
  · -- who has left by now has left later, and no number is that of two elements
    obtain ⟨ys, hlater⟩ := exists_matches (calls ++ later)
    have hnodup := PlainList.nodup_numbers (calls ++ later)
    rw [List.map_append, List.nodup_append'] at hnodup
    have hgone : n ∈ (PlainList.new.departures (calls ++ later)).map (·.1) := by
      rw [PlainList.departures, PlainList.gather_append]
      exact List.mem_map_of_mem (List.mem_append_left _ hin)
    rw [runCalls_append] at hlater
    refine hlater.stale ?_ fun hthere => hnodup.2.2 hthere hgone
    obtain ⟨hlt, rfl⟩ := List.getElem?_eq_some_iff.1 hid
    exact List.prefix_iff_getElem?.1 (prefix_run s later) n hlt

/-- A slot that is used again is given out under another handle. -/
example : (runCalls call (new : ListSession String)
    [.pushFront "a", .pushFront "b", .removeNode 1, .pushBack "c"]).2.handles =
    [⟨0, 0⟩, ⟨1, 0⟩, ⟨1, 1⟩] := rfl

end ListSession

end OrderDesk
