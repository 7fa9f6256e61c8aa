import OrderDesk.Ingest.Backlog
import OrderDesk.Ingest.Journal
import OrderDesk.Order.Wire
import OrderDesk.Text.Quoted

/-! # A source of messages with retries

The source takes messages from a transport and keeps the failed ones until they are due again.
A message leaves it acknowledged or dead-lettered. A call waits for the transport, for the sink
of dead letters or for time; between two waits it is one step, so that calls may interleave in
any way their surroundings allow.

* `Answer`: what a waiting call can be told;
* `Source.consume`, `Source.onSuccess`, `Source.onFail`: the calls, as far as their first wait;
* `Consume.resume`, `Settle.resume`: a call from one wait to the next;
* `Consumed`, `Settled`: what the calls return. -/

namespace OrderDesk

/-- When failed messages are tried again. -/
structure RetryPolicy where
  /-- How many failed attempts a message may have and still be tried again. -/
  maxRetries : Nat := 3
  /-- How many messages may wait for another attempt. -/
  capacity : Nat := 1024
  /-- The time from a failure to the next attempt, in milliseconds. -/
  backoff : Nat := 5000
  deriving DecidableEq, Repr

structure Clock where
  now : Time
  /-- The calendar time. -/
  wall : Timestamp
  deriving DecidableEq, Repr

/-- What the surroundings tell a call or task that waits. -/
inductive Answer where
  | due
  | message (m : RawMessage)
  /-- The transport had no message for as long as a read waits. -/
  | nothing
  | readFailed (e : TransportError)
  /-- The sink has taken a letter, or has failed to. -/
  | sent (error : Option IngestError)
  /-- The transport has acknowledged a message, or has failed to. -/
  | committed (error : Option TransportError)
  /-- The processor is done with an order. -/
  | processed (error : Option OrderError)
  deriving DecidableEq, Repr

/-- A call waits, or it has returned. -/
inductive Progress (κ ρ : Type) where
  | waits (call : κ)
  | returns (result : ρ)
  deriving DecidableEq, Repr

structure Source where
  policy : RetryPolicy
  backlog : Backlog Order
  journal : Journal
  deriving DecidableEq, Repr

namespace Source

def new (policy : RetryPolicy) : Source where
  policy
  backlog := .empty policy.capacity
  journal := []

def record (s : Source) (e : Event) : Source := { s with journal := e :: s.journal }

/-- The text that shows a source to a person. -/
def text (s : Source) (transport sink : String) : String :=
  "RetryingMessageSource \x7b transport: " ++ Text.quoted transport ++
    ", sink: " ++ Text.quoted sink ++
    ", config: RetryConfig \x7b max_retries: " ++ toString s.policy.maxRetries ++
    ", retry_capacity: " ++ toString s.policy.capacity ++
    ", fixed_backoff: " ++ Duration.text (s.policy.backoff * Nat.pow 10 6) ++
    " \x7d, backlog_len: " ++ toString s.backlog.size ++ " \x7d"

end Source

/-! ## Burial -/

/-- A message on its way out of circulation: its letter goes to the sink, then the transport
acknowledges it. -/
inductive Burial where
  | toSink (letter : DeadLetter)
  | toCommit (letter : DeadLetter)
  deriving DecidableEq, Repr

namespace Burial

def letter : Burial → DeadLetter
  | .toSink l | .toCommit l => l

def message (b : Burial) : RawMessage := ⟨b.letter.offset, b.letter.payload⟩

def start (s : Source) (l : DeadLetter) : Source × Burial := (s.record (.sending l), .toSink l)

/-- What the sink says changes nothing; what the transport says is returned. -/
def resume (s : Source) (b : Burial) (a : Answer) :
    Option (Source × Progress Burial (Option TransportError)) :=
  match b, a with
  | .toSink l, .sent e =>
    some ((s.record (.sent l e)).record (.committing b.message), .waits (.toCommit l))
  | .toCommit _, .committed e => some (s.record (.committed b.message e), .returns e)
  | _, _ => none

end Burial

def RawMessage.letter (m : RawMessage) (wall : Timestamp) (tries : Nat)
    (reason : DeadLetterReason) (cause : String) : DeadLetter :=
  { offset := m.offset, payload := m.payload, tries, reason, cause, deadAt := wall }

/-! ## Taking messages -/

/-- What taking a message came to. -/
inductive Consumed where
  | message (m : InFlight Order)
  | nothing
  | failed (e : IngestError)
  deriving DecidableEq, Repr

/-- What a call that takes a message waits for. -/
inductive Consume where
  /-- A message of the transport, asked for at a moment. -/
  | reading (since : Time)
  /-- The transport is closed, and the next failed message is due at a moment. -/
  | resting (till : Time)
  /-- The payload is no order. -/
  | refusing (burial : Burial) (error : Json.Error)
  deriving DecidableEq, Repr

/-- Takes a message that is due again, or asks the transport for one. -/
def Source.consume (s : Source) (now : Time) : Source × Progress Consume Consumed :=
  match s.backlog.popEligible now with
  | some (m, backlog) =>
    (({ s with backlog }).record (.offered m now), .returns (.message m))
  | none => (s, .waits (.reading now))

namespace Consume

def receive (s : Source) (clock : Clock) (m : RawMessage) : Source × Progress Consume Consumed :=
  let s := s.record (.read m)
  match Order.ofBytes m.payload with
  | .ok o =>
    (s.record (.offered (.fresh m o) clock.now), .returns (.message (.fresh m o)))
  | .error e =>
    let (s, b) := Burial.start s (m.letter clock.wall 0 .undecodable e.message)
    (s, .waits (.refusing b e))

/-- The transport is closed: as long as messages wait for another attempt the call rests until
the next one is due. -/
def finish (s : Source) : Progress Consume Consumed :=
  match s.backlog.nextRetryAt? with
  | some due => .waits (.resting due)
  | none => .returns (.failed (.transport .closed))

/-- A call from one wait to the next; `none` for an answer that it does not wait for. -/
def resume (s : Source) (clock : Clock) (c : Consume) (a : Answer) :
    Option (Source × Progress Consume Consumed) :=
  match c, a with
  | .reading _, .message m => some (receive s clock m)
  | .reading _, .nothing => some (s, .returns .nothing)
  | .reading _, .readFailed .closed => some (s, finish s)
  | .reading _, .readFailed e => some (s, .returns (.failed (.transport e)))
  | .resting till, .due => if till ≤ clock.now then some (s, .returns .nothing) else none
  | .refusing b error, a =>
    match b.resume s a with
    | none => none
    | some (s, .waits b) => some (s, .waits (.refusing b error))
    | some (s, .returns none) =>
      some (s, .returns (.failed (.decode b.letter.offset error)))
    | some (s, .returns (some e)) => some (s, .returns (.failed (.transport e)))
  | _, _ => none

end Consume

/-! ## Settling messages -/

/-- What settling a message came to. -/
inductive Settled where
  | acknowledged
  /-- It is due again at a moment, after so many failed attempts. -/
  | retried (tries : Nat) (due : Time)
  | deadLettered (reason : DeadLetterReason)
  | failed (e : IngestError)
  deriving DecidableEq, Repr

/-- What a call that settles a message waits for. -/
inductive Settle where
  | acknowledging (m : RawMessage)
  | burying (burial : Burial)
  deriving DecidableEq, Repr

/-- Acknowledges a processed message. -/
def Source.onSuccess (s : Source) (m : InFlight Order) : Source × Settle :=
  (s.record (.committing m.raw), .acknowledging m.raw)

/-- Dead-letters a message after so many failed attempts. -/
def Source.bury (s : Source) (clock : Clock) (m : InFlight Order) (tries : Nat)
    (reason : DeadLetterReason) (cause : String) : Source × Progress Settle Settled :=
  let (s, b) := Burial.start s (m.raw.letter clock.wall tries reason cause)
  (s, .waits (.burying b))

/-- Puts a failed message off, unless its failure is permanent, it has had its attempts or the
backlog is full. -/
def Source.onFail (s : Source) (clock : Clock) (m : InFlight Order) (retryable : Bool)
    (cause : String) : Source × Progress Settle Settled :=
  if !retryable then s.bury clock m m.tries .invalid cause
  else if s.policy.maxRetries < m.tries + 1 then
    s.bury clock m (m.tries + 1) .maxRetriesExceeded cause
  else
    let retried := m.retry clock.now s.policy.backoff
    match s.backlog.push clock.now retried with
    | some backlog =>
      (({ s with backlog }).record (.scheduled retried clock.now),
        .returns (.retried retried.tries (clock.now + s.policy.backoff)))
    | none => s.bury clock retried retried.tries .retryOverflow cause

namespace Settle

/-- A call from one wait to the next; `none` for an answer that it does not wait for. -/
def resume (s : Source) (c : Settle) (a : Answer) :
    Option (Source × Progress Settle Settled) :=
  match c, a with
  | .acknowledging m, .committed e =>
    some (s.record (.committed m e),
      .returns (match e with
        | none => .acknowledged
        | some e => .failed (.transport e)))
  | .burying b, a =>
    match b.resume s a with
    | none => none
    | some (s, .waits b) => some (s, .waits (.burying b))
    | some (s, .returns none) => some (s, .returns (.deadLettered b.letter.reason))
    | some (s, .returns (some e)) => some (s, .returns (.failed (.transport e)))
  | _, _ => none

end Settle

end OrderDesk
