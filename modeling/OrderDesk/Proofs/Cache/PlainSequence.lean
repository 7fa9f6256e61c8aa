import Mathlib.Data.List.InsertIdx
import OrderDesk.Proofs.Cache.Operations
import OrderDesk.Proofs.Calls

/-!
# A recency list is a plain sequence

Whoever uses a recency list calls its operations with positions and with handles it was given
before. `PlainList` answers the same calls and is a plain sequence: its elements carry the number
of the handle they were put in with, and an operation on a handle looks for that number. The
recency list with the handles it has given (`ListSession`) gives the same answers
(`ListSession.run_eq_plainList`), so its slots, links and generations are not to be seen.
-/

namespace OrderDesk

/-! ## Calls and replies -/

/-- A call on a list. Handles are named by their numbers in the order in which they were given. -/
inductive ListCall (α : Type) where
  | insert (value : α) (index : Nat)
  | pushFront (value : α)
  | pushBack (value : α)
  | removeAt (index : Nat)
  | removeFirst
  | removeLast
  | removeNode (number : Nat)
  | moveToFirst (index : Nat)
  | moveNodeToFront (number : Nat)
  | containsNode (number : Nat)
  | get (index : Nat)
  | first
  | last
  | size
  | isEmpty
  | toList

inductive ListReply (α : Type) where
  /-- An element was put in, and its handle is the one of this number. -/
  | handle (number : Nat)
  | removed (value : α)
  | moved
  | element (value? : Option α)
  | size (n : Nat)
  | flag (b : Bool)
  | elements (values : List α)
  | invalidIndex (index length : Nat)
  /-- The element of this handle is no longer there. -/
  | stale (number : Nat)
  /-- There was no handle of this number. -/
  | unknown (number : Nat)
  | brokenLink (slot : Nat)

/-- A recency list and the handles it has given, the first one first. -/
structure ListSession (α : Type) where
  list : RecencyList α
  handles : List NodeId

namespace ListSession

variable {α : Type}

def new : ListSession α := ⟨.empty, []⟩

/-- The number under which the list gave a handle. -/
def number (s : ListSession α) (id : NodeId) : Nat := s.handles.idxOf id

def refusal (s : ListSession α) : ListError → ListReply α
  | .invalidIndex index length => .invalidIndex index length
  | .staleNode id => .stale (s.number id)
  | .brokenLink slot => .brokenLink slot

def put (s : ListSession α) :
    Except ListError (NodeId × RecencyList α) → ListReply α × ListSession α
  | .ok (id, list) =>
    let s := { list, handles := s.handles ++ [id] }
    (.handle (s.number id), s)
  | .error e => (s.refusal e, s)

def take (s : ListSession α) :
    Except ListError (α × RecencyList α) → ListReply α × ListSession α
  | .ok (v, list) => (.removed v, { s with list })
  | .error e => (s.refusal e, s)

def move (s : ListSession α) : Except ListError (RecencyList α) → ListReply α × ListSession α
  | .ok list => (.moved, { s with list })
  | .error e => (s.refusal e, s)

/-- What a call with the handle of a number comes to. -/
def withHandle (s : ListSession α) (number : Nat)
    (call : NodeId → ListReply α × ListSession α) : ListReply α × ListSession α :=
  match s.handles[number]? with
  | some id => call id
  | none => (.unknown number, s)

def call (s : ListSession α) : ListCall α → ListReply α × ListSession α
  | .insert v i => s.put (s.list.insert v i)
  | .pushFront v => s.put (s.list.pushFront v)
  | .pushBack v => s.put (s.list.pushBack v)
  | .removeAt i => s.take (s.list.removeAt i)
  | .removeFirst => s.take s.list.removeFirst
  | .removeLast => s.take s.list.removeLast
  | .removeNode n => s.withHandle n fun id => s.take (s.list.removeNode id)
  | .moveToFirst i => s.move (s.list.moveToFirst i)
  | .moveNodeToFront n => s.withHandle n fun id => s.move (s.list.moveNodeToFront id)
  | .containsNode n => s.withHandle n fun id => (.flag (s.list.containsNode id), s)
  | .get i => (.element (s.list.get? i), s)
  | .first => (.element s.list.first?, s)
  | .last => (.element s.list.last?, s)
  | .size => (.size s.list.size, s)
  | .isEmpty => (.flag s.list.isEmpty, s)
  | .toList => (.elements s.list.toList, s)

end ListSession

/-- A sequence whose elements carry the numbers of their handles. -/
structure PlainList (α : Type) where
  items : List (Nat × α)
  /-- How many handles were given. -/
  given : Nat

namespace PlainList

variable {α : Type}

def new : PlainList α := ⟨[], 0⟩

def values (p : PlainList α) : List α := p.items.map (·.2)

/-- Puts an element at a position, under the next handle. -/
def putAt (p : PlainList α) (i : Nat) (v : α) : ListReply α × PlainList α :=
  (.handle p.given, { items := p.items.insertIdx i (p.given, v), given := p.given + 1 })

/-- Takes the element at a position out. -/
def takeAt (p : PlainList α) (i : Nat) (refusal : ListReply α) : ListReply α × PlainList α :=
  match p.items[i]? with
  | some x => (.removed x.2, { p with items := p.items.eraseIdx i })
  | none => (refusal, p)

/-- Moves the element at a position to the front. -/
def moveAt (p : PlainList α) (i : Nat) (refusal : ListReply α) : ListReply α × PlainList α :=
  match p.items[i]? with
  | some x => (.moved, { p with items := x :: p.items.eraseIdx i })
  | none => (refusal, p)

/-- The position of the element of a handle, beyond the end if it is no longer there. -/
def position (p : PlainList α) (number : Nat) : Nat := p.items.findIdx (·.1 == number)

def call (p : PlainList α) : ListCall α → ListReply α × PlainList α
  | .insert v i =>
    if i ≤ p.items.length then p.putAt i v else (.invalidIndex i p.items.length, p)
  | .pushFront v => p.putAt 0 v
  | .pushBack v => p.putAt p.items.length v
  | .removeAt i => p.takeAt i (.invalidIndex i p.items.length)
  | .removeFirst => p.takeAt 0 (.invalidIndex 0 0)
  | .removeLast => p.takeAt (p.items.length - 1) (.invalidIndex 0 0)
  | .removeNode n =>
    if n < p.given then p.takeAt (p.position n) (.stale n) else (.unknown n, p)
  | .moveToFirst i => p.moveAt i (.invalidIndex i p.items.length)
  | .moveNodeToFront n =>
    if n < p.given then p.moveAt (p.position n) (.stale n) else (.unknown n, p)
  | .containsNode n =>
    if n < p.given then (.flag (decide (p.position n < p.items.length)), p) else (.unknown n, p)
  | .get i => (.element p.values[i]?, p)
  | .first => (.element p.values.head?, p)
  | .last => (.element p.values.getLast?, p)
  | .size => (.size p.items.length, p)
  | .isEmpty => (.flag p.items.isEmpty, p)
  | .toList => (.elements p.values, p)

end PlainList

namespace ListSession

variable {α : Type} {s : ListSession α} {p : PlainList α} {x : NodeId × α} {v : α}
  {xs ys : List (NodeId × α)} {e : ListError} {refusal : ListReply α} {i : Nat}

/-- An element under the number of its handle. -/
def label (s : ListSession α) (x : NodeId × α) : Nat × α := (s.number x.1, x.2)

/-- The list of the session is the sequence `xs`, and so is the plain list. -/
structure Matches (s : ListSession α) (p : PlainList α) (xs : List (NodeId × α)) : Prop where
  list : s.list.Holds xs []
  nodup : s.handles.Nodup
  issued : ∀ id ∈ s.handles, s.list.Issued id
  mem : ∀ x ∈ xs, x.1 ∈ s.handles
  items : p.items = xs.map s.label
  given : p.given = s.handles.length

theorem Matches.new : Matches (new : ListSession α) .new [] where
  list := .empty
  nodup := List.nodup_nil
  issued := nofun
  mem := nofun
  items := rfl
  given := rfl

theorem Matches.length (h : Matches s p xs) : p.items.length = xs.length := by
  rw [h.items, List.length_map]

theorem Matches.values (h : Matches s p xs) : p.values = xs.map (·.2) := by
  rw [PlainList.values, h.items, List.map_map]; rfl

theorem exists_split (hi : i < xs.length) : ∃ as x bs, xs = as ++ x :: bs ∧ as.length = i :=
  ⟨xs.take i, xs[i], xs.drop (i + 1), by simp, by simp; omega⟩

theorem insertIdx_length_append (xs ys : List α) (v : α) :
    (xs ++ ys).insertIdx xs.length v = xs ++ v :: ys := by
  induction xs with
  | nil => rfl
  | cons x xs ih => exact congrArg (x :: ·) ih

/-! ## Elements are put in, taken out and moved -/

theorem Matches.put {r : Except ListError (NodeId × RecencyList α)} (h : Matches s p (xs ++ ys))
    (hr : ∃ id l', r = .ok (id, l') ∧ l'.Holds (xs ++ (id, v) :: ys) [] ∧
      s.list.GivesOut l' id) :
    (s.put r).1 = (p.putAt xs.length v).1 ∧
      ∃ zs, Matches (s.put r).2 (p.putAt xs.length v).2 zs := by
  obtain ⟨id, l', rfl, hl, hg⟩ := hr
  have hid : id ∉ s.handles := fun hm => hg.fresh (h.issued id hm)
  have hnumber : (s.handles ++ [id]).idxOf id = s.handles.length := by
    rw [List.idxOf_append_of_notMem hid, List.idxOf_cons_self, Nat.add_zero]
  have hlabel : ∀ x ∈ xs ++ ys,
      label { list := l', handles := s.handles ++ [id] } x = s.label x := fun x hx =>
    congrArg (·, x.2) (List.idxOf_append_of_mem (h.mem x hx))
  refine ⟨?_, xs ++ (id, v) :: ys, hl, ?_, ?_, ?_, ?_, ?_⟩
  · exact congrArg ListReply.handle (hnumber.trans h.given.symm)
  · exact h.nodup.append (List.nodup_singleton id) (List.disjoint_singleton.2 hid)
  · intro id' hm
    rcases List.mem_append.1 hm with hm | hm
    · exact hg.keeps (h.issued id' hm)
    · exact List.mem_singleton.1 hm ▸ hg.issued
  · intro x hx
    have hx := List.perm_middle.mem_iff.1 hx
    rcases List.mem_cons.1 hx with rfl | hx
    · exact List.mem_append_right _ (List.mem_singleton_self _)
    · exact List.mem_append_left _ (h.mem x hx)
  · have hnew : label { list := l', handles := s.handles ++ [id] } (id, v) = (p.given, v) :=
      congrArg (·, v) (hnumber.trans h.given.symm)
    change p.items.insertIdx xs.length (p.given, v) = _
    have hlen : (xs.map s.label).length = xs.length := List.length_map _
    rw [h.items, List.map_append, ← hlen, insertIdx_length_append]
    simp only [ListSession.put, List.map_append, List.map_cons, hnew]
    rw [List.map_congr_left fun x hx => hlabel x (List.mem_append_left _ hx),
      List.map_congr_left fun x hx => hlabel x (List.mem_append_right _ hx)]
  · change p.given + 1 = (s.handles ++ [id]).length
    rw [h.given, List.length_append]; rfl

theorem Matches.getElem? (h : Matches s p (xs ++ x :: ys)) :
    p.items[xs.length]? = some (s.label x) := by simp [h.items]

theorem Matches.eraseIdx (h : Matches s p (xs ++ x :: ys)) :
    p.items.eraseIdx xs.length = (xs ++ ys).map s.label := by
  simp [h.items, List.eraseIdx_append_of_length_le]

theorem Matches.getElem?_of_le (h : Matches s p xs) (hi : xs.length ≤ i) : p.items[i]? = none :=
  List.getElem?_eq_none (h.length ▸ hi)

theorem Matches.take {r : Except ListError (α × RecencyList α)} (h : Matches s p (xs ++ x :: ys))
    (hr : ∃ l', r = .ok (x.2, l') ∧ l'.Holds (xs ++ ys) [] ∧
      ∀ {id}, s.list.Issued id → l'.Issued id) :
    (s.take r).1 = (p.takeAt xs.length refusal).1 ∧
      ∃ zs, Matches (s.take r).2 (p.takeAt xs.length refusal).2 zs := by
  obtain ⟨l', rfl, hl, hi⟩ := hr
  rw [PlainList.takeAt, h.getElem?, h.eraseIdx]
  refine ⟨rfl, xs ++ ys, hl, h.nodup, fun id hm => hi (h.issued id hm), fun z hz => h.mem z ?_, rfl,
    h.given⟩
  exact List.perm_middle.mem_iff.2 (List.mem_cons_of_mem _ hz)

theorem Matches.take_error (h : Matches s p xs) (hi : xs.length ≤ i)
    (he : s.refusal e = refusal) :
    (s.take (.error e)).1 = (p.takeAt i refusal).1 ∧
      ∃ zs, Matches (s.take (.error e)).2 (p.takeAt i refusal).2 zs := by
  rw [PlainList.takeAt, h.getElem?_of_le hi]
  exact ⟨he, xs, h⟩

theorem Matches.move {r : Except ListError (RecencyList α)} (h : Matches s p (xs ++ x :: ys))
    (hr : ∃ l', r = .ok l' ∧ l'.Holds (x :: (xs ++ ys)) [] ∧ l'.content = s.list.content) :
    (s.move r).1 = (p.moveAt xs.length refusal).1 ∧
      ∃ zs, Matches (s.move r).2 (p.moveAt xs.length refusal).2 zs := by
  obtain ⟨l', rfl, hl, hc⟩ := hr
  rw [PlainList.moveAt, h.getElem?, h.eraseIdx]
  refine ⟨rfl, x :: (xs ++ ys), hl, h.nodup, fun id hm => ?_, fun z hz => h.mem z ?_, rfl, h.given⟩
  · change RecencyList.Issued l' id
    rw [RecencyList.Issued, hc]
    exact h.issued id hm
  · exact List.perm_middle.mem_iff.2 hz

theorem Matches.move_error (h : Matches s p xs) (hi : xs.length ≤ i)
    (he : s.refusal e = refusal) :
    (s.move (.error e)).1 = (p.moveAt i refusal).1 ∧
      ∃ zs, Matches (s.move (.error e)).2 (p.moveAt i refusal).2 zs := by
  rw [PlainList.moveAt, h.getElem?_of_le hi]
  exact ⟨he, xs, h⟩

/-! ## Handles and their numbers -/

theorem number_inj {id id' : NodeId} (hid : id ∈ s.handles) :
    s.number id' = s.number id ↔ id' = id := by
  rw [eq_comm, @eq_comm _ id']
  exact List.idxOf_inj hid

/-- The plain list finds the element of a handle where the list has it. -/
theorem Matches.position (h : Matches s p (xs ++ x :: ys)) :
    p.position (s.number x.1) = xs.length := by
  have hd := h.list.nodup_handles
  rw [List.map_append, List.map_cons, List.nodup_append'] at hd
  rw [PlainList.position, h.items, List.findIdx_map, List.findIdx_eq (by simp)]
  refine ⟨by simp [label], fun j hj => ?_⟩
  have hj' : j < xs.length := hj
  rw [List.getElem_append_left hj', Function.comp_apply, beq_eq_false_iff_ne]
  have hx : x.1 ∈ s.handles := h.mem x (by simp)
  refine fun heq => hd.2.2 (List.mem_map_of_mem (List.getElem_mem hj')) ?_
  rw [(number_inj hx).1 heq]
  exact List.mem_cons_self

/-- The plain list finds no element for a handle whose element is gone. -/
theorem Matches.position_of_notMem (h : Matches s p xs) {id : NodeId} (hid : id ∈ s.handles)
    (hx : id ∉ xs.map (·.1)) : p.position (s.number id) = xs.length := by
  rw [PlainList.position, h.items, List.findIdx_map, List.findIdx_eq_length]
  intro x hm
  rw [Function.comp_apply, beq_eq_false_iff_ne]
  exact fun heq => hx (List.mem_map.2 ⟨x, hm, (number_inj hid).1 heq⟩)

/-- A call with a handle: the number was given, and the element is somewhere or gone. -/
theorem Matches.withHandle {n : Nat} {call : NodeId → ListReply α × ListSession α}
    {answer : ListReply α × PlainList α} (h : Matches s p xs)
    (hin : ∀ {as x bs}, xs = as ++ x :: bs → n = s.number x.1 → p.position n = as.length →
      (call x.1).1 = answer.1 ∧ ∃ zs, Matches (call x.1).2 answer.2 zs)
    (hout : ∀ {id}, id ∉ xs.map (·.1) → n = s.number id → p.position n = xs.length →
      (call id).1 = answer.1 ∧ ∃ zs, Matches (call id).2 answer.2 zs) :
    (s.withHandle n call).1 = (if n < p.given then answer else (.unknown n, p)).1 ∧
      ∃ zs, Matches (s.withHandle n call).2
        (if n < p.given then answer else (.unknown n, p)).2 zs := by
  rw [ListSession.withHandle, h.given]
  by_cases hn : n < s.handles.length
  · have hid : s.handles[n] ∈ s.handles := List.getElem_mem hn
    have hnumber : n = s.number s.handles[n] := (h.nodup.idxOf_getElem n hn).symm
    rw [List.getElem?_eq_getElem hn, if_pos hn]
    by_cases hx : s.handles[n] ∈ xs.map (·.1)
    · obtain ⟨x, hm, heq⟩ := List.mem_map.1 hx
      obtain ⟨as, bs, rfl⟩ := List.append_of_mem hm
      rw [← heq] at hnumber ⊢
      exact hin rfl hnumber (hnumber ▸ h.position)
    · exact hout hx hnumber (by rw [hnumber]; exact h.position_of_notMem hid hx)
  · rw [List.getElem?_eq_none (Nat.not_lt.1 hn), if_neg hn]
    exact ⟨rfl, xs, h⟩

/-! ## Every call -/

theorem Matches.call (h : Matches s p xs) (c : ListCall α) :
    (s.call c).1 = (p.call c).1 ∧ ∃ zs, Matches (s.call c).2 (p.call c).2 zs := by
  have hsplit : ∀ {i}, i < xs.length → ∃ as x bs, xs = as ++ x :: bs ∧ as.length = i := exists_split
  cases c with
  | insert v i =>
    by_cases hi : i ≤ xs.length
    · rw [PlainList.call, if_pos (h.length.symm ▸ hi)]
      obtain ⟨as, bs, rfl, rfl⟩ : ∃ as bs, xs = as ++ bs ∧ as.length = i :=
        ⟨xs.take i, xs.drop i, (List.take_append_drop i xs).symm, List.length_take_of_le hi⟩
      exact h.put (h.list.insert v)
    · rw [PlainList.call, if_neg (h.length.symm ▸ hi), ListSession.call,
        h.list.insert_of_lt (Nat.lt_of_not_le hi), h.length]
      exact ⟨rfl, xs, h⟩
  | pushFront v =>
    have h : Matches s p ([] ++ xs) := h
    exact h.put (h.list.pushFront v)
  | pushBack v =>
    rw [PlainList.call, h.length]
    rw [← List.append_nil xs] at h
    exact h.put (by simpa using h.list.pushBack v)
  | removeAt i =>
    rw [PlainList.call, h.length]
    by_cases hi : i < xs.length
    · obtain ⟨as, x, bs, rfl, rfl⟩ := hsplit hi
      exact h.take h.list.removeAt
    · rw [ListSession.call, h.list.removeAt_of_le (Nat.not_lt.1 hi)]
      exact h.take_error (Nat.not_lt.1 hi) rfl
  | removeFirst =>
    cases xs with
    | nil =>
      rw [ListSession.call, RecencyList.removeFirst, h.list.head]
      exact h.take_error (Nat.le_refl 0) rfl
    | cons x xs =>
      have h : Matches s p ([] ++ x :: xs) := h
      exact h.take h.list.removeFirst
  | removeLast =>
    rcases List.eq_nil_or_concat xs with rfl | ⟨as, x, rfl⟩
    · rw [ListSession.call, RecencyList.removeLast, h.list.tail]
      exact h.take_error (Nat.zero_le _) rfl
    · rw [List.concat_eq_append] at h
      rw [PlainList.call, h.length, List.length_append]
      exact h.take (by simpa using h.list.removeLast)
  | removeNode n =>
    refine h.withHandle (fun hxs _ hp => ?_) (fun hid hn hp => ?_)
    · subst hxs
      rw [hp]
      exact h.take h.list.removeNode
    · rw [RecencyList.removeNode, h.list.resolve_of_notMem hid]
      exact h.take_error (Nat.le_of_eq hp.symm) (congrArg _ hn.symm)
  | moveToFirst i =>
    rw [PlainList.call, h.length]
    by_cases hi : i < xs.length
    · obtain ⟨as, x, bs, rfl, rfl⟩ := hsplit hi
      exact h.move h.list.moveToFirst
    · rw [ListSession.call, h.list.moveToFirst_of_le (Nat.not_lt.1 hi)]
      exact h.move_error (Nat.not_lt.1 hi) rfl
  | moveNodeToFront n =>
    refine h.withHandle (fun hxs _ hp => ?_) (fun hid hn hp => ?_)
    · subst hxs
      rw [hp]
      exact h.move h.list.moveNodeToFront
    · rw [RecencyList.moveNodeToFront, h.list.resolve_of_notMem hid]
      exact h.move_error (Nat.le_of_eq hp.symm) (congrArg _ hn.symm)
  | containsNode n =>
    refine h.withHandle (fun hxs _ hp => ⟨?_, xs, h⟩) (fun hid _ hp => ⟨?_, xs, h⟩)
    · subst hxs
      rw [h.list.containsNode, hp, h.length]
      simp
    · rw [h.list.containsNode, hp, h.length, decide_eq_false hid]
      simp
  | get i => exact ⟨by rw [PlainList.call, h.values, List.getElem?_map, ← h.list.get?]; rfl, xs, h⟩
  | first => exact ⟨by rw [PlainList.call, h.values, List.head?_map, ← h.list.first?]; rfl, xs, h⟩
  | last => exact ⟨by rw [PlainList.call, h.values, List.getLast?_map, ← h.list.last?]; rfl, xs, h⟩
  | size => exact ⟨by rw [PlainList.call, h.length, ← h.list.size]; rfl, xs, h⟩
  | isEmpty =>
    refine ⟨?_, xs, h⟩
    rw [PlainList.call, h.items, List.isEmpty_map, ← h.list.isEmpty]; rfl
  | toList => exact ⟨by rw [PlainList.call, h.values, ← h.list.toList]; rfl, xs, h⟩

/-- **A recency list is a plain sequence**: called with any positions and any handles given
before, it answers as the plain list does, and holds the same elements after every call. -/
theorem run_eq_plainList (calls : List (ListCall α)) :
    (runCalls call new calls).1 = (runCalls PlainList.call .new calls).1 ∧
      (runCalls call new calls).2.list.toList = (runCalls PlainList.call .new calls).2.values := by
  obtain ⟨hreplies, xs, h⟩ := runCalls_eq (R := fun s p => ∃ xs, Matches (α := α) s p xs)
    (fun c ⟨_, h⟩ => h.call c) ⟨[], .new⟩ calls
  exact ⟨hreplies, by rw [h.list.toList, h.values]⟩

end ListSession

end OrderDesk
