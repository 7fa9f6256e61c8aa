import OrderDesk.Text.Utf8

/-! # Messages on their way

* `RawMessage`: a payload and the offset the transport gave it;
* `InFlight`: a read message with its decoded value and its failed attempts. -/

namespace OrderDesk

/-- A moment on the monotonic clock, in milliseconds since it started. -/
abbrev Time := Nat

structure RawMessage where
  /-- The place in the transport, which acknowledges the message. -/
  offset : Nat
  payload : Bytes
  deriving DecidableEq, Repr

/-- A message that was read and is neither acknowledged nor dead-lettered. -/
structure InFlight (α : Type) where
  raw : RawMessage
  value : α
  /-- Failed attempts so far. -/
  tries : Nat
  /-- The earliest moment of the next attempt, after a failed one. -/
  retryAfter : Option Time
  deriving DecidableEq, Repr

namespace InFlight

variable {α : Type}

def fresh (raw : RawMessage) (value : α) : InFlight α :=
  { raw, value, tries := 0, retryAfter := none }

def retry (m : InFlight α) (now : Time) (backoff : Nat) : InFlight α :=
  { m with tries := m.tries + 1, retryAfter := some (now + backoff) }

def offset (m : InFlight α) : Nat := m.raw.offset

def isEligible (m : InFlight α) (now : Time) : Bool :=
  match m.retryAfter with
  | none => true
  | some due => due ≤ now

end InFlight

end OrderDesk
