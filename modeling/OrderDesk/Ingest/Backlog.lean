import OrderDesk.Ingest.Message

/-! # Retry backlog

Failed messages that wait for their next attempt, in the order of their deadlines and, for
equal deadlines, of their insertion. A full backlog hands a message back.

* `push`, `popEligible`: the operations;
* `nextRetryAt?`, `size`, `isFull`: what can be seen. -/

namespace OrderDesk

structure Scheduled (α : Type) where
  due : Time
  /-- The number of insertions before this one. -/
  seq : Nat
  message : InFlight α
  deriving DecidableEq, Repr

/-- Earlier deadlines come first, and earlier insertions at equal deadlines. -/
def Scheduled.before {α : Type} (a b : Scheduled α) : Bool :=
  a.due < b.due || (a.due == b.due && a.seq < b.seq)

structure Backlog (α : Type) where
  /-- The waiting messages, the next one first. -/
  waiting : List (Scheduled α)
  capacity : Nat
  nextSeq : Nat
  deriving DecidableEq, Repr

namespace Backlog

variable {α : Type}

def empty (capacity : Nat) : Backlog α := { waiting := [], capacity, nextSeq := 0 }

def size (b : Backlog α) : Nat := b.waiting.length

def isEmpty (b : Backlog α) : Bool := b.waiting.isEmpty

def isFull (b : Backlog α) : Bool := b.capacity ≤ b.size

/-- Puts a message behind those that come before it. -/
def insertSorted (s : Scheduled α) : List (Scheduled α) → List (Scheduled α)
  | [] => [s]
  | t :: ts => if s.before t then s :: t :: ts else t :: insertSorted s ts

/-- Schedules a message; one without a deadline is due at once, at `now`. `none` if the backlog
is full. -/
def push (b : Backlog α) (now : Time) (message : InFlight α) : Option (Backlog α) :=
  if b.isFull then none
  else
    let s : Scheduled α := { due := message.retryAfter.getD now, seq := b.nextSeq, message }
    some { b with waiting := insertSorted s b.waiting, nextSeq := b.nextSeq + 1 }

/-- Takes the first message if it is due at `now`. -/
def popEligible (b : Backlog α) (now : Time) : Option (InFlight α × Backlog α) :=
  match b.waiting with
  | [] => none
  | s :: rest => if s.due ≤ now then some (s.message, { b with waiting := rest }) else none

def nextRetryAt? (b : Backlog α) : Option Time := b.waiting.head?.map (·.due)

end Backlog

end OrderDesk
