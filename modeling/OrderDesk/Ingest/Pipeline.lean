import OrderDesk.Ingest.Source
import OrderDesk.Order.Validation

/-! # The ingestion pipeline

A loop takes messages from a source, validates their orders and starts a dispatch for each
valid one; a dispatch gives the order to the processor and settles the message. The loop ends
when it is told to stop or when the transport is closed and nothing is left to do, and waits for
its dispatches in both cases.

The loop and each dispatch are tasks. `Pipeline.step` moves one of them from one wait to the
next, given what its surroundings tell it; any order of such steps is a run.

* `Loop`, `Dispatch`: where the tasks stand;
* `Stats`: the counters;
* `Pipeline.stop`, `Pipeline.dropSender`: the signal to stop;
* `Pipeline.step`: one step of one task. -/

namespace OrderDesk

structure Stats where
  /-- Messages handed to the loop, each attempt counted. -/
  consumed : Nat := 0
  invalid : Nat := 0
  processed : Nat := 0
  /-- Failed attempts to process an order. -/
  failed : Nat := 0
  decodeErrors : Nat := 0
  deriving DecidableEq, Repr

inductive Ending where
  | stopped
  /-- The transport is closed, and nothing waits for another attempt. -/
  | closed
  deriving DecidableEq, Repr

inductive Loop where
  | idle
  /-- Before it looks at the signal. -/
  | top
  /-- The signal was not given, and a message is to be taken. -/
  | polling
  | consuming (call : Consume)
  /-- A message with an invalid order is being dead-lettered. -/
  | rejecting (call : Settle)
  /-- The transport is closed; dispatches have to end before the backlog is looked at again. -/
  | settling
  /-- It rests after a failure until a moment. -/
  | pausing (till : Time)
  /-- It has ended and waits for its dispatches. -/
  | draining (ending : Ending)
  | finished (ending : Ending)
  /-- It was cut off, and its dispatches with it. -/
  | aborted
  deriving DecidableEq, Repr

namespace Dispatch

inductive Stage where
  | queued
  | processing
  | settling (call : Settle)
  | done
  deriving DecidableEq, Repr

end Dispatch

/-- An order on its way through the processor. -/
structure Dispatch where
  /-- How many dispatches were started before it. -/
  id : Nat
  message : InFlight Order
  stage : Dispatch.Stage
  deriving DecidableEq, Repr

def Dispatch.isDone (d : Dispatch) : Bool := d.stage == .done

/-- The task of a pipeline that takes a step. -/
inductive Task where
  | loop
  | dispatch (id : Nat)
  deriving DecidableEq, Repr

structure Pipeline where
  source : Source
  /-- How long the loop rests after a failure, in milliseconds. -/
  errorBackoff : Nat
  loop : Loop := .idle
  /-- The dispatches, those included that are done and that the loop has not yet seen. -/
  dispatches : List Dispatch := []
  started : Nat := 0
  stats : Stats := {}
  /-- The signal to stop was given last. -/
  stopSignal : Bool := false
  /-- Whoever may give the signal is still there. -/
  senderAlive : Bool := true
  deriving DecidableEq, Repr

namespace Pipeline

def new (policy : RetryPolicy) (errorBackoff : Nat) : Pipeline :=
  { source := .new policy, errorBackoff }

/-! ## Control -/

def start (p : Pipeline) (signal : Bool := false) : Pipeline :=
  { p with loop := .top, stopSignal := signal }

def signal (p : Pipeline) (value : Bool) : Pipeline := { p with stopSignal := value }

def stop (p : Pipeline) : Pipeline := p.signal true

def dropSender (p : Pipeline) : Pipeline := { p with senderAlive := false }

/-- The loop ends the next time it looks. -/
def stopRequested (p : Pipeline) : Bool := p.stopSignal || !p.senderAlive

def abort (p : Pipeline) : Pipeline := { p with loop := .aborted, dispatches := [] }

/-- The loop and all its dispatches have ended. -/
def isFinished (p : Pipeline) : Bool :=
  match p.loop with
  | .finished _ | .aborted => true
  | _ => false

def allDone (p : Pipeline) : Bool := p.dispatches.all Dispatch.isDone

/-! ## The loop -/

/-- Ends the loop as soon as no dispatch is left. -/
def leave (p : Pipeline) (ending : Ending) : Pipeline :=
  { p with loop := if p.dispatches.isEmpty then .finished ending else .draining ending }

/-- Puts away the dispatches that are done. -/
def reap (p : Pipeline) : Pipeline :=
  { p with dispatches := p.dispatches.filter fun d => !d.isDone }

def spawn (p : Pipeline) (m : InFlight Order) : Pipeline :=
  { p with
    dispatches := p.dispatches ++ [{ id := p.started, message := m, stage := .queued }]
    started := p.started + 1
    loop := .top }

/-- The loop after dead-lettering an invalid order has begun or ended. -/
def reject (p : Pipeline) : Source × Progress Settle Settled → Pipeline
  | (source, .waits call) => { p with source, loop := .rejecting call }
  | (source, .returns _) => { p with source, loop := .top }

def receive (p : Pipeline) (clock : Clock) (m : InFlight Order) : Pipeline :=
  let stats := { p.stats with consumed := p.stats.consumed + 1 }
  match m.value.validate clock.wall with
  | .ok () => { p with stats }.spawn m
  | .error e =>
    { p with stats := { stats with invalid := stats.invalid + 1 } }.reject
      (p.source.onFail clock m false e.text)

/-- A call that takes a message has come to its next wait or has returned. -/
def consumed (p : Pipeline) (clock : Clock) : Source × Progress Consume Consumed → Pipeline
  | (source, .waits call) => { p with source, loop := .consuming call }
  | (source, .returns r) =>
    let p := { p with source, loop := .top }
    match r with
    | .message m => p.receive clock m
    | .nothing => p
    | .failed (.transport .closed) =>
      if p.dispatches.isEmpty then { p with loop := .finished .closed }
      else { p with loop := .settling }
    | .failed (.decode ..) =>
      { p with stats := { p.stats with decodeErrors := p.stats.decodeErrors + 1 } }
    | .failed _ => { p with loop := .pausing (clock.now + p.errorBackoff) }

/-- One step of the loop; `none` for an answer that it does not wait for. -/
def stepLoop (p : Pipeline) (clock : Clock) (a : Answer) : Option Pipeline :=
  match p.loop, a with
  | .top, .due =>
    if p.stopRequested then some (p.leave .stopped) else some { p.reap with loop := .polling }
  | .polling, .due => some (p.consumed clock (p.source.consume clock.now))
  | .consuming call, a => (call.resume p.source clock a).map (p.consumed clock)
  | .rejecting call, a => (call.resume p.source a).map p.reject
  | .settling, .due => if p.allDone then some { p.reap with loop := .top } else none
  | .pausing till, .due => if till ≤ clock.now then some { p with loop := .top } else none
  | .draining ending, .due =>
    if p.allDone then some { p.reap with loop := .finished ending } else none
  | _, _ => none

/-! ## Dispatches -/

/-- A dispatch has come to a stage. -/
def enter (p : Pipeline) (id : Nat) (stage : Dispatch.Stage) : Pipeline :=
  { p with dispatches := p.dispatches.map fun d => if d.id = id then { d with stage } else d }

/-- A dispatch that settles its message has come to its next wait or has ended. -/
def settled (p : Pipeline) (id : Nat) : Source × Progress Settle Settled → Pipeline
  | (source, .waits call) => { p with source }.enter id (.settling call)
  | (source, .returns _) => { p with source }.enter id .done

/-- The processor is done with an order. -/
def answered (p : Pipeline) (clock : Clock) (d : Dispatch) (error : Option OrderError) :
    Pipeline :=
  let source := p.source.record (.answered d.message error)
  match error with
  | none =>
    let (source, call) := source.onSuccess d.message
    { p with stats := { p.stats with processed := p.stats.processed + 1 } }.settled d.id
      (source, .waits call)
  | some e =>
    { p with stats := { p.stats with failed := p.stats.failed + 1 } }.settled d.id
      (source.onFail clock d.message true e.text)

/-- One step of a dispatch; `none` for an answer that it does not wait for. -/
def stepDispatch (p : Pipeline) (clock : Clock) (d : Dispatch) (a : Answer) :
    Option Pipeline :=
  match d.stage, a with
  | .queued, .due =>
    some ({ p with source := p.source.record (.calling d.message) }.enter d.id .processing)
  | .processing, .processed error => some (p.answered clock d error)
  | .settling call, a => (call.resume p.source a).map (p.settled d.id)
  | _, _ => none

def dispatch? (p : Pipeline) (id : Nat) : Option Dispatch := p.dispatches.find? (·.id == id)

/-- One step of one task; `none` if there is no such task or it waits for something else. -/
def step (p : Pipeline) (clock : Clock) (t : Task) (a : Answer) : Option Pipeline :=
  match t with
  | .loop => p.stepLoop clock a
  | .dispatch id => (p.dispatch? id).bind fun d => p.stepDispatch clock d a

end Pipeline

end OrderDesk
