import OrderDesk.Ingest.Link
import OrderDesk.Ingest.Pipeline

/-! # A pipeline on a virtual clock

One run of a pipeline: its tasks take turns on a single thread, in the order in which they
became able to go on, and each goes on until it has to wait. The clock stands still while a task
can go on and then jumps to the next moment that one waits for.

Whoever looks on acts between those turns: it publishes, gives the signal to stop, or waits,
which is when the tasks get their turns.

* `Processor`: what a dispatch calls;
* `Timeline.runTasks`, `Timeline.waitFor`: turns, and turns with time going by;
* `Timeline.publish`, `Timeline.sleep`, `Timeline.shutdown`: what the onlooker does. -/

namespace OrderDesk

/-- What orders are dispatched to. -/
structure Processor (σ : Type) where
  /-- Takes an order: how long it will work on it, and its answer then. -/
  process : Order → σ → (Nat × Option OrderError) × σ
  /-- What it does on its own while others wait. -/
  background : σ → σ := id

/-- The answer of a processor that is still to come. -/
structure Pending where
  id : Nat
  due : Time
  error : Option OrderError
  deriving DecidableEq, Repr

structure Timeline (σ : Type) where
  clock : Clock
  link : Link
  pipeline : Pipeline
  processor : σ
  pending : List Pending := []
  /-- The tasks that can go on, the next one first. -/
  line : List Task := []
  /-- The loop will be cut off at its next turn. -/
  aborting : Bool := false
  /-- The source outlives the pipeline, and with it the reader of the channel. -/
  sourceHeld : Bool := true

namespace Timeline

variable {σ : Type}

def now (t : Timeline σ) : Time := t.clock.now

/-! ## Turns -/

/-- What a task is told now; `none` while it has to wait. -/
def answer (t : Timeline σ) : Task → Option Answer × Timeline σ
  | .loop =>
    let fromLink (r : Option Answer × Link) : Option Answer × Timeline σ :=
      (r.1, { t with link := r.2 })
    match t.pipeline.loop with
    | .top | .polling => (some .due, t)
    | .consuming call => fromLink (t.link.answerConsume t.now call)
    | .rejecting call => fromLink (t.link.answerSettle call)
    | .settling | .draining _ => (if t.pipeline.allDone then some .due else none, t)
    | .pausing till => (if till ≤ t.now then some .due else none, t)
    | .idle | .finished _ | .aborted => (none, t)
  | .dispatch id =>
    match t.pipeline.dispatch? id with
    | none => (none, t)
    | some d =>
      match d.stage with
      | .queued => (some .due, t)
      | .processing =>
        match t.pending.find? fun p => p.id == id && p.due ≤ t.now with
        | some p =>
          (some (.processed p.error), { t with pending := t.pending.filter (·.id != id) })
        | none => (none, t)
      | .settling call =>
        let (a, link) := t.link.answerSettle call
        (a, { t with link })
      | .done => (none, t)

def tasks (t : Timeline σ) : List Task :=
  .loop :: t.pipeline.dispatches.map fun d => .dispatch d.id

/-- Puts the tasks that have become able to go on at the end of the line. -/
def enroll (t : Timeline σ) : Timeline σ :=
  let fresh := t.tasks.filter fun task =>
    !t.line.contains task && ((t.answer task).1.isSome || (task == .loop && t.aborting))
  { t with line := t.line ++ fresh }

def call (t : Timeline σ) (processor : Processor σ) (d : Dispatch) : Timeline σ :=
  let ((delay, error), state) := processor.process d.message.value t.processor
  { t with
    processor := state
    pending := t.pending ++ [{ id := d.id, due := t.now + delay, error }] }

/-- One step of a task that can go on; `none` if it has to wait. -/
def stepTask (t : Timeline σ) (processor : Processor σ) (task : Task) : Option (Timeline σ) :=
  match t.answer task with
  | (none, _) => none
  | (some a, t') =>
    let calling := match task with
      | .loop => none
      | .dispatch id => (t.pipeline.dispatch? id).filter (·.stage == .queued)
    (t'.pipeline.step t.clock task a).map fun pipeline =>
      let t := { t' with pipeline }
      match calling with
      | some d => t.call processor d
      | none => t

/-- A pipeline that is over takes the reader of the channel with it, unless its source is held by
others. -/
def release (t : Timeline σ) : Timeline σ :=
  if t.pipeline.isFinished && !t.sourceHeld && t.link.channel.readerAlive then
    { t with link := { t.link with channel := t.link.channel.dropReader } }
  else t

/-- What a wait of a task leaves behind: a read that waits has looked for faults. -/
def park (t : Timeline σ) (task : Task) : Timeline σ := (t.answer task).2

/-- The turns of the tasks in line and of those they make able to go on, at most `fuel` steps:
the first in line goes on until it has to wait. -/
def runTasks (processor : Processor σ) : Nat → Timeline σ → Timeline σ
  | 0, t => t
  | fuel + 1, t =>
    match t.line with
    | [] => t
    | task :: rest =>
      if task == .loop && t.aborting then
        let t := { t with line := rest, aborting := false, pipeline := t.pipeline.abort
                          pending := [] }
        runTasks processor fuel t.release
      else
        match t.stepTask processor task with
        | some t => runTasks processor fuel t.release.enroll
        | none => runTasks processor fuel { t.park task with line := rest }

/-! ## Time -/

def timers (t : Timeline σ) : List Time :=
  (match t.pipeline.loop with
    | .consuming call => (t.link.wakesAt? call).toList
    | .pausing till => [till]
    | _ => []) ++ t.pending.map (·.due)

/-- The next moment after now that a task waits for, or `deadline` if that comes first. -/
def nextMoment (t : Timeline σ) (deadline : Time) : Time :=
  (t.timers.filter (t.now < ·)).foldl min deadline

def moveTo (t : Timeline σ) (now : Time) : Timeline σ := { t with clock := { t.clock with now } }

/-- More steps than any wait takes. -/
def enough : Nat := 10000000

/-- Waits until `isDone` or until `deadline`, in at most `fuel` jumps of the clock. -/
def waitLoop (processor : Processor σ) (isDone : Timeline σ → Bool) (deadline : Time) :
    Nat → Timeline σ → Timeline σ
  | 0, t => t
  | fuel + 1, t =>
    if isDone t || deadline ≤ t.now then t
    else
      let t := runTasks processor enough t.enroll
      let t := { t with processor := processor.background t.processor }
      if isDone t then t
      else waitLoop processor isDone deadline fuel (t.moveTo (t.nextMoment deadline)).enroll

def waitFor (t : Timeline σ) (processor : Processor σ) (isDone : Timeline σ → Bool)
    (deadline : Time) : Timeline σ :=
  waitLoop processor isDone deadline enough t

def yield (t : Timeline σ) (processor : Processor σ) : Timeline σ :=
  let t := runTasks processor enough t.enroll
  { t with processor := processor.background t.processor }

/-! ## The onlooker -/

def sleep (t : Timeline σ) (processor : Processor σ) (ms : Nat) : Timeline σ :=
  t.waitFor processor (fun _ => false) (t.now + ms)

/-- Publishes a payload and gives its offset; `none` when there was no room for `patience`
milliseconds. -/
def publish (t : Timeline σ) (processor : Processor σ) (patience : Nat) (payload : Bytes) :
    Except TransportError (Option Nat) × Timeline σ :=
  let withChannel (t : Timeline σ) (channel : Channel) : Timeline σ :=
    { t with link := { t.link with channel } }
  let (offset, channel) := t.link.channel.claim
  let m : RawMessage := ⟨offset, payload⟩
  match channel.offer m with
  | .closed => (.error .closed, withChannel t channel)
  | .queued channel => (.ok (some offset), (withChannel t channel).enroll)
  | .waiting channel =>
    let t := (withChannel t channel).waitFor processor
      (fun t => t.link.channel.isAdmitted m || !t.link.channel.readerAlive) (t.now + patience)
    let channel := t.link.channel
    if channel.isAdmitted m then
      (.ok (some offset), (withChannel t (channel.arrive m)).enroll)
    else if !channel.readerAlive then (.error .closed, t)
    else (.ok none, withChannel t (channel.withdraw m))

/-- Takes the next message in place of the pipeline, or waits as long as a read does. -/
def receive (t : Timeline σ) (processor : Processor σ) : Option RawMessage × Timeline σ :=
  match t.link.channel.take? with
  | some (m, channel) => (some m, { t with link := { t.link with channel } })
  | none => (none, t.sleep processor t.link.channel.pollWindow)

def start (t : Timeline σ) (signal : Bool := false) : Timeline σ :=
  { t with pipeline := t.pipeline.start signal }.enroll

/-- Gives the signal to stop and waits for the pipeline to end; one that takes longer than
`timeout` milliseconds is cut off. -/
def shutdown (t : Timeline σ) (processor : Processor σ) (timeout : Nat) :
    Except IngestError Stats × Timeline σ :=
  let t := { t with pipeline := t.pipeline.stop }
  let t := t.waitFor processor (·.pipeline.isFinished) (t.now + timeout)
  let t := { t with pipeline := t.pipeline.dropSender }
  if t.pipeline.isFinished then (.ok t.pipeline.stats, t)
  else (.error (.shutdownTimeout (timeout * Nat.pow 10 6)), { t with aborting := true }.enroll)

end Timeline

/-! ## A processor that follows a script -/

/-- How an order will be processed: how long it takes, and how it fails if it does. -/
structure Plan where
  delay : Nat := 0
  failure : Option OrderError := none
  deriving DecidableEq, Repr

/-- The plans of the next calls, and of all calls after those. -/
structure Script where
  plans : List Plan
  default : Plan
  deriving DecidableEq, Repr

namespace Script

def process (s : Script) : (Nat × Option OrderError) × Script :=
  match s.plans with
  | p :: plans => ((p.delay, p.failure), { s with plans })
  | [] => ((s.default.delay, s.default.failure), s)

def processor : Processor Script := { process := fun _ s => s.process }

end Script

end OrderDesk
