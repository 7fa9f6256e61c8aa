import OrderDesk.Ingest.Message
import OrderDesk.Ingest.Error

/-! # The channel in process

A bounded queue between publishers and one reader. A publisher first takes an offset and then
puts its message in, waiting for room when the queue is full; room that a read makes goes to the
publisher that waits longest. The reader acknowledges offsets.

* `claim`, `offer`, `arrive`, `withdraw`: the publishing side, one step each;
* `take?`, `isExhausted`, `commit`: the reading side;
* `dropPublisher`, `dropReader`: one of the two sides goes away. -/

namespace OrderDesk

structure Channel where
  /-- How many messages may be unread, at least one. -/
  capacity : Nat
  /-- How long a read waits for a message, in milliseconds. -/
  pollWindow : Nat
  /-- The unread messages, the next one first. -/
  queue : List RawMessage
  /-- Messages whose publishers have been given room and have not used it yet. -/
  admitted : List RawMessage
  /-- Messages whose publishers wait for room, in the order of their arrival. -/
  waiting : List RawMessage
  nextOffset : Nat
  /-- How many publishers there are. -/
  publishers : Nat
  readerAlive : Bool
  /-- The acknowledged offsets, ascending. -/
  committed : List Nat
  deriving DecidableEq, Repr

namespace Channel

/-- A channel with one publisher; it has room for one message at least. -/
def new (capacity pollWindow : Nat) : Channel where
  capacity := max capacity 1
  pollWindow
  queue := []
  admitted := []
  waiting := []
  nextOffset := 0
  publishers := 1
  readerAlive := true
  committed := []

def name : String := "channel"

/-- Another message may be put in or admitted. -/
def hasRoom (c : Channel) : Bool := c.queue.length + c.admitted.length < c.capacity

/-! ## Publishing -/

/-- The offset of the next message. It stays used whatever becomes of the message. -/
def claim (c : Channel) : Nat × Channel := (c.nextOffset, { c with nextOffset := c.nextOffset + 1 })

inductive Offer where
  | closed
  | queued (c : Channel)
  /-- The queue is full, and the publisher waits. -/
  | waiting (c : Channel)

def offer (c : Channel) (m : RawMessage) : Offer :=
  if !c.readerAlive then .closed
  else if c.hasRoom then .queued { c with queue := c.queue ++ [m] }
  else .waiting { c with waiting := c.waiting ++ [m] }

/-- Room goes to the publisher that waits longest. -/
def letIn (c : Channel) : Channel :=
  match c.waiting with
  | [] => c
  | m :: rest =>
    if c.hasRoom then { c with admitted := c.admitted ++ [m], waiting := rest } else c

def isAdmitted (c : Channel) (m : RawMessage) : Bool := c.admitted.contains m

def arrive (c : Channel) (m : RawMessage) : Channel :=
  { c with admitted := c.admitted.erase m, queue := c.queue ++ [m] }

def withdraw (c : Channel) (m : RawMessage) : Channel :=
  letIn { c with admitted := c.admitted.erase m, waiting := c.waiting.erase m }

def addPublisher (c : Channel) : Channel := { c with publishers := c.publishers + 1 }

def dropPublisher (c : Channel) : Channel := { c with publishers := c.publishers - 1 }

/-! ## Reading -/

def take? (c : Channel) : Option (RawMessage × Channel) :=
  match c.queue with
  | [] => none
  | m :: rest => some (m, letIn { c with queue := rest })

/-- No message is left and none can come. -/
def isExhausted (c : Channel) : Bool := c.publishers == 0 && c.queue.isEmpty

/-- Puts an offset among ascending ones; one that is there already is not repeated. -/
def insertOffset (n : Nat) : List Nat → List Nat
  | [] => [n]
  | k :: ks => if n < k then n :: k :: ks else if n = k then k :: ks else k :: insertOffset n ks

def commit (c : Channel) (offset : Nat) : Channel :=
  { c with committed := insertOffset offset c.committed }

def isCommitted (c : Channel) (offset : Nat) : Bool := c.committed.contains offset

/-- The reader goes away, and with it the unread messages. -/
def dropReader (c : Channel) : Channel :=
  { c with readerAlive := false, queue := [], admitted := [], waiting := [] }

end Channel

end OrderDesk
