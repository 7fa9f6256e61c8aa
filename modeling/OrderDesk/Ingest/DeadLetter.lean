import OrderDesk.Ingest.Error
import OrderDesk.Ingest.Message
import OrderDesk.Json.Record
import OrderDesk.Time.Rfc3339

/-! # Dead letters

Messages that will not be processed again, and where they go. The sink in memory keeps the most
recent letters, dropping the oldest when full; the sink that logs keeps none.

* `DeadLetter`: the letter and its JSON form;
* `Sink`: the sinks, with `Sink.send`;
* `LogRecord`: what is written to the log about letters. -/

namespace OrderDesk

inductive DeadLetterReason where
  | undecodable
  | invalid
  | maxRetriesExceeded
  | retryOverflow
  deriving DecidableEq, Repr

def DeadLetterReason.label : DeadLetterReason → String
  | .undecodable => "undecodable"
  | .invalid => "invalid"
  | .maxRetriesExceeded => "max_retries_exceeded"
  | .retryOverflow => "retry_overflow"

structure DeadLetter where
  offset : Nat
  payload : Bytes
  tries : Nat
  reason : DeadLetterReason
  cause : String
  deadAt : Timestamp
  deriving DecidableEq, Repr

namespace DeadLetter

/-- The payload as text, ill-formed parts replaced. -/
def payloadText (l : DeadLetter) : String := l.payload.toStringLossy

def toJson (l : DeadLetter) : List Char :=
  Json.writeObject [
    ("offset", Json.writeInt l.offset),
    ("payload", Json.Text.write l.payloadText),
    ("tries", Json.writeInt l.tries),
    ("reason", Json.Text.write l.reason.label),
    ("cause", Json.Text.write l.cause),
    ("dead_at", Json.Text.write l.deadAt.toText)]

end DeadLetter

/-- A line of the log: fields with their texts. -/
abbrev LogRecord := List (String × String)

namespace LogRecord

def deadLettered (l : DeadLetter) : LogRecord :=
  [("message", "Message dead-lettered"), ("offset", toString l.offset),
   ("tries", toString l.tries), ("reason", l.reason.label), ("cause", l.cause),
   ("payload", l.payloadText)]

def sinkFailed (offset : Nat) (sink : String) (error : IngestError) : LogRecord :=
  [("message", "Dead-letter sink failed"), ("offset", toString offset), ("sink", sink),
   ("error", error.text)]

end LogRecord

inductive Sink where
  /-- The letters that are kept, oldest first. -/
  | memory (capacity : Nat) (letters : List DeadLetter)
  | log
  deriving DecidableEq, Repr

namespace Sink

def name : Sink → String
  | .memory .. => "memory"
  | .log => "log"

def letters : Sink → List DeadLetter
  | .memory _ ls => ls
  | .log => []

def send (l : DeadLetter) : Sink → Except IngestError Unit × Sink
  | .memory capacity ls =>
    if capacity = 0 then
      (.error (.deadLetter "memory sink has zero capacity"), .memory capacity ls)
    else
      (.ok (), .memory capacity ((if capacity ≤ ls.length then ls.drop 1 else ls) ++ [l]))
  | .log => (.ok (), .log)

/-- What handing over a letter writes to the log. -/
def records (l : DeadLetter) : Sink → List LogRecord
  | .memory .. => []
  | .log => [.deadLettered l]

/-- The letters that were kept, and the sink without them. -/
def drain : Sink → List DeadLetter × Sink
  | .memory capacity ls => (ls, .memory capacity [])
  | .log => ([], .log)

end Sink

end OrderDesk
