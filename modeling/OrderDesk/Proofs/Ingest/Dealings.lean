import OrderDesk.Ingest.Pipeline
import OrderDesk.Proofs.Ingest.Ledger

/-!
# What goes on between a pipeline and its surroundings

A task that has given an order to the processor, a letter to the sink or an acknowledgement to the
transport waits for what these say to it. So what it has asked for can be seen from where it waits
(`Pipeline.awaits?`), and what it learns from where it has waited and what it is told
(`Pipeline.learns?`), without a look at the journal.

The journal is true to this: a step adds what its task has learned and then what it asks for, and
nothing else but which messages are handed out and put off (`Pipeline.dealings_step`).
-/

namespace OrderDesk

/-! ## The dealings in a journal -/

/-- It is something that the surroundings were asked for or have said. -/
def Event.isDealing : Event → Bool
  | .offered .. | .scheduled .. => false
  | _ => true

/-- What the surroundings were asked for and what they have said, the latest first. -/
def Journal.dealings (j : Journal) : Journal := j.filter Event.isDealing

/-- The letters that the sink was given are part of the dealings. -/
theorem Journal.letters_dealings (j : Journal) : j.dealings.letters = j.letters := by
  induction j with
  | nil => rfl
  | cons e j ih =>
    cases e with
    | sending l => exact congrArg (l :: ·) ih
    | _ => exact ih

/-! ## Calls -/

/-- What a burial has asked for and waits for. -/
def Burial.awaits : Burial → Event
  | .toSink l => .sending l
  | .toCommit l => .committing l.message

def Settle.awaits : Settle → Event
  | .acknowledging m => .committing m
  | .burying b => b.awaits

/-- What a call that takes a message has asked for, unless it waits for a message or for time. -/
def Consume.awaits? : Consume → Option Event
  | .refusing b _ => some b.awaits
  | _ => none

/-- What a call waits for; one that has returned waits for nothing. -/
def Progress.awaits? {κ ρ : Type} (ofCall : κ → Option Event) : Progress κ ρ → Option Event
  | .waits call => ofCall call
  | .returns _ => none

/-- What a burial learns when it is told something. -/
def Burial.learns? : Burial → Answer → Option Event
  | .toSink l, .sent error => some (.sent l error)
  | .toCommit l, .committed error => some (.committed l.message error)
  | _, _ => none

def Settle.learns? : Settle → Answer → Option Event
  | .acknowledging m, .committed error => some (.committed m error)
  | .burying b, a => b.learns? a
  | _, _ => none

def Consume.learns? : Consume → Answer → Option Event
  | .reading _, .message m => some (.read m)
  | .refusing b _, a => b.learns? a
  | _, _ => none

theorem Burial.dealings_resume {s s' : Source} {a : Answer} {b : Burial}
    {p : Progress Burial (Option TransportError)} (h : b.resume s a = some (s', p)) :
    s'.journal.dealings =
      (p.awaits? fun b => some b.awaits).toList ++
        ((b.learns? a).toList ++ s.journal.dealings) := by
  cases b <;> cases a <;> cases h <;> rfl

theorem Settle.dealings_resume {s s' : Source} {a : Answer} {call : Settle}
    {p : Progress Settle Settled} (h : call.resume s a = some (s', p)) :
    s'.journal.dealings = (p.awaits? fun call => some call.awaits).toList ++
      ((call.learns? a).toList ++ s.journal.dealings) := by
  cases call with
  | acknowledging m =>
    cases a <;> cases h
    rfl
  | burying b =>
    simp only [Settle.resume] at h
    split at h
    · cases h
    all_goals
      rename_i hb
      cases h
      exact Burial.dealings_resume hb

theorem Consume.dealings_receive (s : Source) (clock : Clock) (m : RawMessage) :
    (receive s clock m).1.journal.dealings =
      ((receive s clock m).2.awaits? Consume.awaits?).toList ++ .read m :: s.journal.dealings := by
  unfold receive
  split <;> rfl

theorem Consume.dealings_resume {s s' : Source} {clock : Clock} {a : Answer} {call : Consume}
    {p : Progress Consume Consumed} (h : call.resume s clock a = some (s', p)) :
    s'.journal.dealings =
      (p.awaits? Consume.awaits?).toList ++ ((call.learns? a).toList ++ s.journal.dealings) := by
  cases call with
  | reading since =>
    cases a with
    | message m =>
      obtain ⟨rfl, rfl⟩ := Prod.mk.inj (Option.some.inj h)
      exact dealings_receive s clock m
    | nothing =>
      cases h
      rfl
    | readFailed e =>
      cases e with
      | closed =>
        cases h
        unfold finish
        split <;> rfl
      | _ =>
        cases h
        rfl
    | _ => cases h
  | resting till =>
    cases a <;> try cases h
    simp only [Consume.resume] at h
    split at h <;> cases h
    rfl
  | refusing b error =>
    simp only [Consume.resume] at h
    split at h
    · cases h
    all_goals
      rename_i hb
      cases h
      exact Burial.dealings_resume hb

namespace Source

theorem dealings_consume (s : Source) (now : Time) : (s.consume now).1.journal.dealings =
    ((s.consume now).2.awaits? Consume.awaits?).toList ++ s.journal.dealings := by
  unfold consume
  split <;> rfl

theorem dealings_onFail (s : Source) (clock : Clock) (m : InFlight Order) (retryable : Bool)
    (cause : String) : (s.onFail clock m retryable cause).1.journal.dealings =
      ((s.onFail clock m retryable cause).2.awaits? fun call => some call.awaits).toList ++
        s.journal.dealings := by
  unfold onFail
  split
  · rfl
  split
  · rfl
  dsimp only
  split <;> rfl

end Source

/-! ## Tasks -/

def Loop.awaits? : Loop → Option Event
  | .consuming call => call.awaits?
  | .rejecting call => some call.awaits
  | _ => none

def Loop.learns? : Loop → Answer → Option Event
  | .consuming call, a => call.learns? a
  | .rejecting call, a => call.learns? a
  | _, _ => none

/-- What a dispatch has asked for and waits for, the processor included. -/
def Dispatch.awaits? (d : Dispatch) : Option Event :=
  match d.stage with
  | .processing => some (.calling d.message)
  | .settling call => some call.awaits
  | .queued | .done => none

def Dispatch.learns? (d : Dispatch) (a : Answer) : Option Event :=
  match d.stage, a with
  | .processing, .processed error => some (.answered d.message error)
  | .settling call, a => call.learns? a
  | _, _ => none

namespace Pipeline

variable {p p' : Pipeline} {d : Dispatch} {clock : Clock} {a : Answer} {j : Journal}

/-- What a task has asked for and waits for. -/
def awaits? (p : Pipeline) : Task → Option Event
  | .loop => p.loop.awaits?
  | .dispatch id => (p.dispatch? id).bind Dispatch.awaits?

/-- What a task learns when it is told something. -/
def learns? (p : Pipeline) (a : Answer) : Task → Option Event
  | .loop => p.loop.learns? a
  | .dispatch id => (p.dispatch? id).bind fun d => d.learns? a

/-- The dealings of a task in a step: what it learns, and then what it asks for. -/
def deals (p : Pipeline) (t : Task) (a : Answer) (p' : Pipeline) : Journal :=
  (p'.awaits? t).toList ++ (p.learns? a t).toList

/-! ### The loop -/

theorem dealings_reject (p : Pipeline) {next : Source × Progress Settle Settled}
    (h : next.1.journal.dealings =
      (next.2.awaits? fun call => some call.awaits).toList ++ j) :
    (p.reject next).source.journal.dealings = ((p.reject next).awaits? .loop).toList ++ j := by
  obtain ⟨source, q⟩ := next
  cases q <;> exact h

theorem dealings_receive (p : Pipeline) (clock : Clock) (m : InFlight Order) :
    (p.receive clock m).source.journal.dealings =
      ((p.receive clock m).awaits? .loop).toList ++ p.source.journal.dealings := by
  unfold receive
  dsimp only
  split
  · rfl
  · exact dealings_reject _ (Source.dealings_onFail ..)

theorem dealings_consumed (p : Pipeline) (clock : Clock)
    {next : Source × Progress Consume Consumed}
    (h : next.1.journal.dealings = (next.2.awaits? Consume.awaits?).toList ++ j) :
    (p.consumed clock next).source.journal.dealings =
      ((p.consumed clock next).awaits? .loop).toList ++ j := by
  obtain ⟨source, q⟩ := next
  cases q with
  | waits call => exact h
  | returns r =>
    cases r with
    | message m =>
      refine (dealings_receive { p with source, loop := .top } clock m).trans ?_
      exact congrArg _ h
    | nothing => exact h
    | failed e =>
      cases e with
      | transport e =>
        cases e with
        | closed =>
          simp only [consumed]
          split <;> exact h
        | _ => exact h
      | _ => exact h

theorem dealings_stepLoop (hs : p.stepLoop clock a = some p') :
    p'.source.journal.dealings = p.deals .loop a p' ++ p.source.journal.dealings := by
  rw [deals, List.append_assoc]
  unfold stepLoop at hs
  split at hs
  case h_1 hloop =>
    rw [learns?, hloop]
    split at hs <;> cases hs
    · unfold leave awaits?
      dsimp only
      split <;> rfl
    · rfl
  case h_2 hloop =>
    rw [learns?, hloop]
    cases hs
    exact dealings_consumed p clock (p.source.dealings_consume clock.now)
  case h_3 call a hloop =>
    rw [learns?, hloop]
    obtain ⟨next, hr, rfl⟩ := Option.map_eq_some_iff.1 hs
    exact dealings_consumed p clock (Consume.dealings_resume hr)
  case h_4 call a hloop =>
    rw [learns?, hloop]
    obtain ⟨next, hr, rfl⟩ := Option.map_eq_some_iff.1 hs
    exact dealings_reject p (Settle.dealings_resume hr)
  case h_5 hloop | h_6 hloop | h_7 hloop =>
    rw [learns?, hloop]
    split at hs <;> cases hs
    rfl
  case h_8 => cases hs

/-! ### Dispatches -/

/-- A dispatch that comes to another stage is found there. -/
theorem dispatch?_enter {id : Nat} (hd : p.dispatch? id = some d) (stage : Dispatch.Stage) :
    (p.enter d.id stage).dispatch? id = some { d with stage } := by
  have hsame : (fun e : Dispatch => (if e.id = d.id then { e with stage } else e).id == id) =
      (·.id == id) := by
    funext e
    split <;> rfl
  rw [dispatch?, enter, List.find?_map]
  change Option.map _ (p.dispatches.find? fun e =>
    (if e.id = d.id then { e with stage } else e).id == id) = _
  rw [hsame, ← dispatch?, hd, Option.map_some, if_pos rfl]

theorem dealings_settled (p : Pipeline) {id : Nat} (hd : p.dispatch? id = some d) (stats : Stats)
    {next : Source × Progress Settle Settled}
    (h : next.1.journal.dealings = (next.2.awaits? fun call => some call.awaits).toList ++ j) :
    ({ p with stats }.settled d.id next).source.journal.dealings =
      (({ p with stats }.settled d.id next).awaits? (.dispatch id)).toList ++ j := by
  obtain ⟨source, q⟩ := next
  have henter : ∀ stage, (({ p with source, stats }.enter d.id stage).awaits? (.dispatch id)) =
      Dispatch.awaits? { d with stage } := by
    intro stage
    rw [awaits?, dispatch?_enter (p := { p with source, stats }) hd, Option.bind_some]
  cases q <;>
  · rw [settled, henter]
    exact h

theorem dealings_stepDispatch {id : Nat} (hd : p.dispatch? id = some d)
    (hs : p.stepDispatch clock d a = some p') :
    p'.source.journal.dealings = p.deals (.dispatch id) a p' ++ p.source.journal.dealings := by
  rw [deals, List.append_assoc, learns?, hd, Option.bind_some]
  unfold stepDispatch at hs
  split at hs
  case h_1 hstage =>
    cases hs
    have henter := dispatch?_enter
      (p := { p with source := p.source.record (.calling d.message) }) hd .processing
    simp only [awaits?, henter, Dispatch.learns?, hstage]
    rfl
  case h_2 error hstage =>
    cases hs
    simp only [Dispatch.learns?, hstage]
    cases error with
    | none => exact dealings_settled p hd _ rfl
    | some e => exact dealings_settled p hd _ (Source.dealings_onFail ..)
  case h_3 call a _ hstage =>
    obtain ⟨next, hr, rfl⟩ := Option.map_eq_some_iff.1 hs
    simp only [Dispatch.learns?, hstage]
    exact dealings_settled p hd p.stats (Settle.dealings_resume hr)
  case h_4 => cases hs

/-- The journal tells the dealings of every step, all of them and in their order. -/
theorem dealings_step {t : Task} (hs : p.step clock t a = some p') :
    p'.source.journal.dealings = p.deals t a p' ++ p.source.journal.dealings := by
  cases t with
  | loop => exact dealings_stepLoop hs
  | dispatch id =>
    obtain ⟨d, hd, hs⟩ := Option.bind_eq_some_iff.1 hs
    exact dealings_stepDispatch hd hs

end Pipeline

end OrderDesk
