/-! # Recency list

A sequence whose elements keep a handle. Elements live in numbered slots and point at their
neighbours by slot number, so an element can be moved to the front or removed through its
handle without walking the list. A freed slot is used again, last freed first; each use raises
its generation, so a handle to a former element of the slot is told apart from the present one.

* `RecencyList`, `NodeId`: the list and the handles;
* `insert`, `pushFront`, `pushBack`, `removeAt`, `removeFirst`, `removeLast`, `removeNode`,
  `moveToFirst`, `moveNodeToFront`: the operations, each giving the list after it;
* `get?`, `first?`, `last?`, `toList`, `size`: what can be seen.

A link to a free slot is reported as `ListError.brokenLink`. -/

namespace OrderDesk

/-- A handle to an element, good until that element is removed. -/
structure NodeId where
  slot : Nat
  generation : Nat
  deriving DecidableEq, Repr

namespace NodeId

def text (id : NodeId) : String :=
  s!"NodeId \x7b slot: {id.slot}, generation: {id.generation} \x7d"

end NodeId

inductive ListError where
  | invalidIndex (index length : Nat)
  | staleNode (id : NodeId)
  /-- A link leads to a slot that holds no element. -/
  | brokenLink (slot : Nat)
  deriving DecidableEq, Repr

def ListError.text : ListError → String
  | .invalidIndex index length => s!"index {index} out of range for list of length {length}"
  | .staleNode id => s!"node {id.text} is no longer in the list"
  | .brokenLink slot => s!"linked slot {slot} is free"

structure Node (α : Type) where
  value : α
  prev : Option Nat
  next : Option Nat
  deriving DecidableEq, Repr

structure Slot (α : Type) where
  /-- How often the slot has been used again. -/
  generation : Nat
  node : Option (Node α)
  deriving DecidableEq, Repr

structure RecencyList (α : Type) where
  slots : Array (Slot α)
  /-- The slots to use again, the next one first. -/
  free : List Nat
  head : Option Nat
  tail : Option Nat
  size : Nat
  deriving DecidableEq, Repr

namespace RecencyList

variable {α : Type}

def empty : RecencyList α where
  slots := #[]
  free := []
  head := none
  tail := none
  size := 0

instance : Inhabited (RecencyList α) := ⟨empty⟩

/-! ## Slots -/

def node? (l : RecencyList α) (slot : Nat) : Option (Node α) := l.slots[slot]?.bind (·.node)

/-- The element of a slot that a link leads to. -/
def node (l : RecencyList α) (slot : Nat) : Except ListError (Node α) :=
  match l.node? slot with
  | some n => .ok n
  | none => .error (.brokenLink slot)

def modifyNode (l : RecencyList α) (slot : Nat) (f : Node α → Node α) :
    Except ListError (RecencyList α) :=
  match l.node? slot with
  | some n =>
    .ok { l with slots := l.slots.modify slot fun s => { s with node := some (f n) } }
  | none => .error (.brokenLink slot)

/-- The slot of a handle whose element is still there. -/
def resolve (l : RecencyList α) (id : NodeId) : Except ListError Nat :=
  match l.slots[id.slot]? with
  | some s =>
    if s.generation = id.generation && s.node.isSome then .ok id.slot
    else .error (.staleNode id)
  | none => .error (.staleNode id)

/-- Puts an element that is not linked yet into a slot. -/
def allocate (l : RecencyList α) (value : α) : Except ListError (NodeId × RecencyList α) :=
  let node : Node α := { value, prev := none, next := none }
  match l.free with
  | slot :: free =>
    match l.slots[slot]? with
    | some s =>
      let generation := s.generation + 1
      .ok (⟨slot, generation⟩,
        { l with free, slots := l.slots.modify slot fun _ => { generation, node := some node } })
    | none => .error (.brokenLink slot)
  | [] =>
    .ok (⟨l.slots.size, 0⟩,
      { l with slots := l.slots.push { generation := 0, node := some node } })

/-- Frees the slot of an element that is no longer linked. -/
def release (l : RecencyList α) (slot : Nat) : Except ListError (α × RecencyList α) :=
  match l.node? slot with
  | some n =>
    .ok (n.value,
      { l with
        slots := l.slots.modify slot fun s => { s with node := none }
        free := slot :: l.free })
  | none => .error (.brokenLink slot)

/-! ## Links -/

/-- The slot that is `steps` steps behind `slot?`. -/
def forward (l : RecencyList α) : (steps : Nat) → (slot? : Option Nat) →
    Except ListError (Option Nat)
  | 0, slot? => .ok slot?
  | _ + 1, none => .ok none
  | steps + 1, some slot => do l.forward steps (← l.node slot).next

/-- The slot that is `steps` steps before `slot?`. -/
def backward (l : RecencyList α) : (steps : Nat) → (slot? : Option Nat) →
    Except ListError (Option Nat)
  | 0, slot? => .ok slot?
  | _ + 1, none => .ok none
  | steps + 1, some slot => do l.backward steps (← l.node slot).prev

/-- The slot of the element at a position, reached from the nearer end. -/
def slotAt (l : RecencyList α) (index : Nat) : Except ListError Nat := do
  if l.size ≤ index then throw (.invalidIndex index l.size)
  let slot? ←
    if index ≤ l.size / 2 then l.forward index l.head
    else l.backward (l.size - 1 - index) l.tail
  match slot? with
  | some slot => pure slot
  | none => throw (.invalidIndex index l.size)

/-- Puts `next` behind the element in `slot?`; where there is none, the list begins there. -/
def setNext (l : RecencyList α) (slot? next : Option Nat) : Except ListError (RecencyList α) :=
  match slot? with
  | some slot => l.modifyNode slot fun n => { n with next }
  | none => .ok { l with head := next }

/-- Puts `prev` before the element in `slot?`; where there is none, the list ends there. -/
def setPrev (l : RecencyList α) (slot? prev : Option Nat) : Except ListError (RecencyList α) :=
  match slot? with
  | some slot => l.modifyNode slot fun n => { n with prev }
  | none => .ok { l with tail := prev }

def linkFront (l : RecencyList α) (slot : Nat) : Except ListError (RecencyList α) := do
  let l' ← l.modifyNode slot fun n => { n with prev := none, next := l.head }
  let l' ← l'.setPrev l.head (some slot)
  pure { l' with head := some slot, size := l.size + 1 }

def linkBack (l : RecencyList α) (slot : Nat) : Except ListError (RecencyList α) := do
  let l' ← l.modifyNode slot fun n => { n with prev := l.tail, next := none }
  let l' ← l'.setNext l.tail (some slot)
  pure { l' with tail := some slot, size := l.size + 1 }

def linkBefore (l : RecencyList α) (slot before : Nat) : Except ListError (RecencyList α) := do
  let prev := (← l.node before).prev
  let l' ← l.modifyNode slot fun n => { n with prev, next := some before }
  let l' ← l'.setPrev (some before) (some slot)
  let l' ← l'.setNext prev (some slot)
  pure { l' with size := l.size + 1 }

/-- Joins the neighbours of an element to each other. -/
def unlink (l : RecencyList α) (slot : Nat) : Except ListError (RecencyList α) := do
  let n ← l.node slot
  let l' ← l.setNext n.prev n.next
  let l' ← l'.setPrev n.next n.prev
  let l' ← l'.modifyNode slot fun m => { m with prev := none, next := none }
  pure { l' with size := l.size - 1 }

/-- Moves an element to the front, where the first one already is. -/
def moveSlotToFront (l : RecencyList α) (slot : Nat) : Except ListError (RecencyList α) := do
  if l.head = some slot then pure l
  else (← l.unlink slot).linkFront slot

/-- Takes an element out and frees its slot. -/
def removeSlot (l : RecencyList α) (slot : Nat) : Except ListError (α × RecencyList α) := do
  (← l.unlink slot).release slot

/-! ## Operations -/

def pushFront (l : RecencyList α) (value : α) : Except ListError (NodeId × RecencyList α) := do
  let (id, l) ← l.allocate value
  pure (id, ← l.linkFront id.slot)

def pushBack (l : RecencyList α) (value : α) : Except ListError (NodeId × RecencyList α) := do
  let (id, l) ← l.allocate value
  pure (id, ← l.linkBack id.slot)

/-- Inserts an element so that it ends up at the position; the length itself appends. -/
def insert (l : RecencyList α) (value : α) (index : Nat) :
    Except ListError (NodeId × RecencyList α) := do
  if l.size < index then throw (.invalidIndex index l.size)
  if index = 0 then l.pushFront value
  else if index = l.size then l.pushBack value
  else
    let before ← l.slotAt index
    let (id, l) ← l.allocate value
    pure (id, ← l.linkBefore id.slot before)

def removeAt (l : RecencyList α) (index : Nat) : Except ListError (α × RecencyList α) := do
  l.removeSlot (← l.slotAt index)

def removeFirst (l : RecencyList α) : Except ListError (α × RecencyList α) :=
  match l.head with
  | some slot => l.removeSlot slot
  | none => .error (.invalidIndex 0 0)

def removeLast (l : RecencyList α) : Except ListError (α × RecencyList α) :=
  match l.tail with
  | some slot => l.removeSlot slot
  | none => .error (.invalidIndex 0 0)

def moveToFirst (l : RecencyList α) (index : Nat) : Except ListError (RecencyList α) := do
  l.moveSlotToFront (← l.slotAt index)

def moveNodeToFront (l : RecencyList α) (id : NodeId) : Except ListError (RecencyList α) := do
  l.moveSlotToFront (← l.resolve id)

def removeNode (l : RecencyList α) (id : NodeId) : Except ListError (α × RecencyList α) := do
  l.removeSlot (← l.resolve id)

/-! ## What can be seen -/

def containsNode (l : RecencyList α) (id : NodeId) : Bool := (l.resolve id).isOk

def isEmpty (l : RecencyList α) : Bool := l.size == 0

def get? (l : RecencyList α) (index : Nat) : Option α :=
  match l.slotAt index with
  | .ok slot => (l.node? slot).map (·.value)
  | .error _ => none

def first? (l : RecencyList α) : Option α := l.head.bind fun slot => (l.node? slot).map (·.value)

def last? (l : RecencyList α) : Option α := l.tail.bind fun slot => (l.node? slot).map (·.value)

/-- The elements from a slot on; `fuel` bounds their number. -/
def collect (l : RecencyList α) : (fuel : Nat) → (slot? : Option Nat) → List α
  | 0, _ => []
  | _, none => []
  | fuel + 1, some slot =>
    match l.node? slot with
    | some n => n.value :: l.collect fuel n.next
    | none => []

/-- The elements from front to back. There are no more of them than slots. -/
def toList (l : RecencyList α) : List α := l.collect l.slots.size l.head

end RecencyList

end OrderDesk
