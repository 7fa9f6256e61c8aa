import OrderDesk.Ingest.Channel
import OrderDesk.Ingest.Source

/-! # A channel and a sink as surroundings

What a source meets at run time: a channel, whose next reads and acknowledgements can be made
to fail for trying out failures, and a sink for dead letters.

* `Link.answerConsume`, `Link.answerSettle`: what a waiting call is told now, if anything;
* `Link.consume`, `Link.settle`: a call to its end, with nothing else going on. -/

namespace OrderDesk

structure Link where
  channel : Channel
  sink : Sink
  /-- The reasons for which the next reads will fail. -/
  readFaults : List String := []
  /-- The reasons for which the next acknowledgements will fail. -/
  commitFaults : List String := []
  /-- A read waits for a message; faults concern later reads. -/
  reading : Bool := false
  deriving DecidableEq, Repr

namespace Link

def addReadFaults (l : Link) (n : Nat) (message : String) : Link :=
  { l with readFaults := l.readFaults ++ List.replicate n message }

def addCommitFaults (l : Link) (n : Nat) (message : String) : Link :=
  { l with commitFaults := l.commitFaults ++ List.replicate n message }

/-- The answer to a read that began at `since`, if there is one now. -/
def answerRead (l : Link) (since now : Time) : Option Answer × Link :=
  match l.reading, l.readFaults with
  | false, f :: faults => (some (.readFailed (.read f)), { l with readFaults := faults })
  | _, _ =>
    match l.channel.take? with
    | some (m, channel) => (some (.message m), { l with channel, reading := false })
    | none =>
      if l.channel.isExhausted then (some (.readFailed .closed), { l with reading := false })
      else if since + l.channel.pollWindow ≤ now then
        (some .nothing, { l with reading := false })
      else (none, { l with reading := true })

def answerCommit (l : Link) (offset : Nat) : Option Answer × Link :=
  match l.commitFaults with
  | f :: faults =>
    (some (.committed (some (.commit offset f))), { l with commitFaults := faults })
  | [] => (some (.committed none), { l with channel := l.channel.commit offset })

def answerBurial (l : Link) : Burial → Option Answer × Link
  | .toSink letter =>
    match l.sink.send letter with
    | (.ok (), sink) => (some (.sent none), { l with sink })
    | (.error e, sink) => (some (.sent (some e)), { l with sink })
  | .toCommit letter => l.answerCommit letter.offset

def answerConsume (l : Link) (now : Time) : Consume → Option Answer × Link
  | .reading since => l.answerRead since now
  | .resting till => (if till ≤ now then some .due else none, l)
  | .refusing b _ => l.answerBurial b

def answerSettle (l : Link) : Settle → Option Answer × Link
  | .acknowledging m => l.answerCommit m.offset
  | .burying b => l.answerBurial b

/-- When a call goes on even if nothing happens. -/
def wakesAt? (l : Link) : Consume → Option Time
  | .reading since => some (since + l.channel.pollWindow)
  | .resting till => some till
  | .refusing .. => none

/-! ## One call at a time -/

/-- Publishes a payload and gives its offset; `none` when there was no room for `patience`
milliseconds. -/
def publish (l : Link) (now : Time) (patience : Nat) (payload : Bytes) :
    Except TransportError (Option Nat) × Link × Time :=
  let (offset, channel) := l.channel.claim
  let m : RawMessage := ⟨offset, payload⟩
  match channel.offer m with
  | .closed => (.error .closed, { l with channel }, now)
  | .queued channel => (.ok (some offset), { l with channel }, now)
  | .waiting channel => (.ok none, { l with channel := channel.withdraw m }, now + patience)

/-- Reads a message; `none` when none came for as long as a read waits. -/
def read (l : Link) (now : Time) : Except TransportError (Option RawMessage) × Link × Time :=
  match l.answerRead now now with
  | (some (.message m), l) => (.ok (some m), l, now)
  | (some (.readFailed e), l) => (.error e, l, now)
  | (some _, l) => (.ok none, l, now)
  | (none, l) => (.ok none, { l with reading := false }, now + l.channel.pollWindow)

/-- A call that takes a message, to its end. It waits at most for a message or for a moment,
then for the sink, then for the acknowledgement. -/
def finishConsume (l : Link) (s : Source) (clock : Clock) :
    Nat → Consume → Option (Consumed × Link × Source × Clock)
  | 0, _ => none
  | n + 1, c =>
    match l.answerConsume clock.now c with
    | (some a, l) =>
      match c.resume s clock a with
      | none => none
      | some (s, .returns r) => some (r, l, s, clock)
      | some (s, .waits c) => finishConsume l s clock n c
    | (none, l) =>
      match l.wakesAt? c with
      | some t => finishConsume l s { clock with now := max clock.now t } n c
      | none => none

def consume (l : Link) (s : Source) (clock : Clock) :
    Option (Consumed × Link × Source × Clock) :=
  match s.consume clock.now with
  | (s, .returns r) => some (r, l, s, clock)
  | (s, .waits c) => l.finishConsume s clock 8 c

/-- A call that settles a message, to its end. -/
def finishSettle (l : Link) (s : Source) : Nat → Settle → Option (Settled × Link × Source)
  | 0, _ => none
  | n + 1, c =>
    match l.answerSettle c with
    | (some a, l) =>
      match c.resume s a with
      | none => none
      | some (s, .returns r) => some (r, l, s)
      | some (s, .waits c) => finishSettle l s n c
    | (none, _) => none

def onSuccess (l : Link) (s : Source) (m : InFlight Order) :
    Option (Settled × Link × Source) :=
  let (s, c) := s.onSuccess m
  l.finishSettle s 4 c

def onFail (l : Link) (s : Source) (clock : Clock) (m : InFlight Order) (retryable : Bool)
    (cause : String) : Option (Settled × Link × Source) :=
  match s.onFail clock m retryable cause with
  | (s, .returns r) => some (r, l, s)
  | (s, .waits c) => l.finishSettle s 4 c

end Link

end OrderDesk
