import OrderDesk.Ingest.DeadLetter
import OrderDesk.Metrics.Exposition
import OrderDesk.Order.Basic
import OrderDesk.Order.Error

/-! # What happens to messages

The journal of the ingestion path: what was read, handed out, put off, dead-lettered,
acknowledged and processed, in this order. Counters and log are views of it.

* `Event`, `Journal`: the entries, the latest first;
* `Journal.families`: the metrics;
* `Journal.records`: the log. -/

namespace OrderDesk

inductive Event where
  | read (message : RawMessage)
  /-- A message was handed out for an attempt. -/
  | offered (message : InFlight Order) (now : Time)
  /-- A failed message was put into the backlog, for its next attempt. -/
  | scheduled (message : InFlight Order) (now : Time)
  /-- The sink was given a letter. -/
  | sending (letter : DeadLetter)
  /-- The sink was done with a letter. -/
  | sent (letter : DeadLetter) (error : Option IngestError)
  /-- The transport was asked to acknowledge a message. -/
  | committing (message : RawMessage)
  /-- The transport has acknowledged a message, or has failed to. -/
  | committed (message : RawMessage) (error : Option TransportError)
  | calling (message : InFlight Order)
  | answered (message : InFlight Order) (error : Option OrderError)
  deriving DecidableEq, Repr

/-- The events up to now, the latest first. -/
abbrev Journal := List Event

namespace Journal

/-! ## Metrics -/

def tally (j : Journal) (key : Event → Option String) : Tally String :=
  (j.reverse.filterMap key).foldl (fun t k => t.bump k) []

def origin : Event → Option String
  | .offered m _ => some (if m.tries = 0 then "fresh" else "retry")
  | _ => none

def deadLetterReason : Event → Option String
  | .sent l _ => some l.reason.label
  | _ => none

def outcome : Event → Option String
  | .answered _ none => some "processed"
  | .answered _ (some _) => some "failed"
  | _ => none

def retries (j : Journal) : Nat :=
  j.countP fun
    | .scheduled .. => true
    | _ => false

/-- The size of the backlog has been told: one of its messages came or went. -/
def movesBacklog : Event → Bool
  | .offered m _ => m.tries != 0
  | .scheduled .. => true
  | _ => false

/-- The metrics after these events, for a backlog that now holds `backlog` messages. -/
def families (j : Journal) (backlog : Nat) : List Metrics.Family :=
  let byKey (label : String) (key : Event → Option String) : List Metrics.Series :=
    (j.tally key).map fun (k, n) => { labels := [(label, k)], value := toString n }
  [{ name := "orderflow_ingest_messages_total"
     description := "Messages handed to the pipeline, by origin (fresh or retry)"
     kind := .counter
     series := byKey "origin" origin },
   { name := "orderflow_ingest_retries_total"
     description := "Messages scheduled for another attempt"
     kind := .counter
     series := if j.retries = 0 then [] else [{ labels := [], value := toString j.retries }] },
   { name := "orderflow_ingest_dead_letters_total"
     description := "Messages dead-lettered, by reason"
     kind := .counter
     series := byKey "reason" deadLetterReason },
   { name := "orderflow_ingest_retry_backlog"
     description := "Messages waiting in the retry backlog"
     kind := .gauge
     series := if j.any movesBacklog then [{ labels := [], value := Metrics.gaugeText backlog }]
       else [] },
   { name := "orderflow_ingest_dispatch_total"
     description := "Order dispatches, by outcome"
     kind := .counter
     series := byKey "outcome" outcome }]

/-! ## Log -/

def records (j : Journal) (sink : Sink) : List LogRecord :=
  j.reverse.flatMap fun
    | .sending l => sink.records l
    | .sent l (some e) => [.sinkFailed l.offset sink.name e]
    | _ => []

/-! ## Orders -/

/-- The orders that the processor was given, in this order. -/
def called (j : Journal) : List Order :=
  j.reverse.filterMap fun
    | .calling m => some m.value
    | _ => none

/-- The orders that the processor was done with, in this order. -/
def processed (j : Journal) : List Order :=
  j.reverse.filterMap fun
    | .answered m none => some m.value
    | _ => none

end Journal

end OrderDesk
