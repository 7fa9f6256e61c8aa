import OrderDesk.Json.Error
import OrderDesk.Time.Duration

/-! # Failures of the ingestion path

* `TransportError`: what a transport reports;
* `IngestError`: what the consumer of messages sees, worded by `IngestError.text`. -/

namespace OrderDesk

inductive TransportError where
  /-- No other message will ever come. -/
  | closed
  | read (message : String)
  | commit (offset : Nat) (reason : String)
  deriving DecidableEq, Repr

namespace TransportError

def text : TransportError → String
  | .closed => "transport closed"
  | .read m => s!"read failed: {m}"
  | .commit offset reason => s!"commit of offset {offset} failed: {reason}"

end TransportError

inductive IngestError where
  | transport (error : TransportError)
  /-- The payload at this offset is no order. It has been dead-lettered. -/
  | decode (offset : Nat) (source : Json.Error)
  | deadLetter (message : String)
  /-- The pipeline took longer to stop than allowed, in nanoseconds. -/
  | shutdownTimeout (nanos : Nat)
  | taskFailed (message : String)
  deriving DecidableEq, Repr

namespace IngestError

def text : IngestError → String
  | .transport e => s!"transport error: {e.text}"
  | .decode offset source =>
    s!"failed to decode message at offset {offset}: {source.message}"
  | .deadLetter m => s!"dead-letter sink error: {m}"
  | .shutdownTimeout nanos => s!"pipeline did not stop within {Duration.text nanos}"
  | .taskFailed m => s!"pipeline task failed: {m}"

/-- The transport is closed for good, so the loop may end. -/
def isClosed : IngestError → Bool
  | .transport .closed => true
  | _ => false

/-- The error underneath, where there is one of its own. -/
def source? : IngestError → Option String
  | .decode _ source => some source.message
  | _ => none

end IngestError

end OrderDesk
