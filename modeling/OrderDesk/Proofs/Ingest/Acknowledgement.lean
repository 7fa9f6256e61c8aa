import OrderDesk.Proofs.Ingest.Intake
import OrderDesk.Proofs.Ingest.Lives

/-!
# When messages are acknowledged

A pipeline reads from any transport, which may fail or repeat itself, while its orders are processed
with any outcome and the sink takes letters or fails. Its tasks take their steps in any order and
may be cut off at any of their waits (`Operation.step`).

Every message that was read has a life of its own, and in it the transport is asked at most once to
acknowledge it: when its order was processed, or when the sink is done with its letter, whatever the
transport then says (`Acknowledged`). Every task only lets things happen to messages where they are
(`Pipeline.Attends.step`), so this holds after any actions (`Operation.run_acknowledges`), and the
journal is true to what the tasks learn and ask for (`Operation.dealings_run`).
-/

namespace OrderDesk

/-! ## The messages of tasks -/

def Loop.places (loop : Loop) : List Place := loop.custody.map Custody.place

def Dispatch.places (d : Dispatch) : List Place :=
  match d.stage with
  | .queued => [.held d.message]
  | .processing => [.working d.message]
  | .settling call => [Custody.place (.settling call)]
  | .done => []

namespace Pipeline

variable {policy : RetryPolicy} {p p' : Pipeline} {d : Dispatch} {m : InFlight Order}
  {clock : Clock} {a : Answer} {lost : List Place}

/-- Where the messages of the tasks are. -/
def taskPlaces (p : Pipeline) : List Place :=
  p.loop.places ++ p.dispatches.flatMap Dispatch.places

/-- A dispatch that comes to another stage changes the place of its own message. -/
theorem exists_taskPlaces_enter (h : Numbered p.dispatches p.started) (hd : d ∈ p.dispatches) :
    ∃ rest, p.taskPlaces.Perm (d.places ++ rest) ∧ ∀ stage,
      (p.enter d.id stage).taskPlaces.Perm ({ d with stage }.places ++ rest) :=
  exists_append_flatMap_enter Dispatch.places p.loop.places h hd

theorem places_reap (p : Pipeline) :
    p.reap.dispatches.flatMap Dispatch.places = p.dispatches.flatMap Dispatch.places := by
  apply flatMap_reap
  intro d hd
  rw [Dispatch.places, hd]

/-- The journal tells the lives of the messages of the tasks and of those that were lost. -/
structure Attends (policy : RetryPolicy) (p : Pipeline) (lost : List Place) : Prop where
  source : p.source.Attends true policy (p.taskPlaces ++ lost)
  numbered : Numbered p.dispatches p.started

/-! ## The loop -/

theorem attends_reject (hn : Numbered p.dispatches p.started)
    {next : Source × Progress Settle Settled}
    (h : next.1.Attends true policy ((Custody.ofSettle next.2).map Custody.place ++
      (p.dispatches.flatMap Dispatch.places ++ lost))) : (p.reject next).Attends policy lost := by
  obtain ⟨source, q⟩ := next
  cases q <;> exact ⟨h, hn⟩

theorem attends_receive (hn : Numbered p.dispatches p.started)
    (h : p.source.Attends true policy
      (.held m :: (p.dispatches.flatMap Dispatch.places ++ lost))) :
    (p.receive clock m).Attends policy lost := by
  unfold receive
  dsimp only
  split
  · refine ⟨h.perm ?_, Numbered.spawn hn m⟩
    have hspawn : (p.dispatches.flatMap Dispatch.places ++ [Place.held m]).Perm
        (.held m :: p.dispatches.flatMap Dispatch.places) :=
      List.perm_append_singleton _ _
    rw [taskPlaces, spawn, List.flatMap_append]
    exact (hspawn.append_right lost).symm
  · rename_i e _
    apply attends_reject
    · exact hn
    · exact h.onFail false (.rejected true m) e.text

theorem attends_consumed (hn : Numbered p.dispatches p.started)
    {next : Source × Progress Consume Consumed}
    (h : next.1.Attends true policy ((Custody.ofConsume next.2).map Custody.place ++
      (p.dispatches.flatMap Dispatch.places ++ lost))) :
    (p.consumed clock next).Attends policy lost := by
  obtain ⟨source, q⟩ := next
  cases q with
  | waits call =>
    rw [← List.append_assoc] at h
    exact ⟨h, hn⟩
  | returns r =>
    cases r with
    | message m => exact attends_receive hn h
    | nothing => exact ⟨h, hn⟩
    | failed e =>
      cases e with
      | transport e =>
        cases e with
        | closed =>
          simp only [consumed]
          split <;> exact ⟨h, hn⟩
        | _ => exact ⟨h, hn⟩
      | _ => exact ⟨h, hn⟩

theorem attends_reap (hn : Numbered p.dispatches p.started)
    (h : p.source.Attends true policy (p.dispatches.flatMap Dispatch.places ++ lost))
    {loop : Loop} (hloop : loop.places = []) : { p.reap with loop }.Attends policy lost := by
  refine ⟨?_, Numbered.reap hn⟩
  rw [taskPlaces, hloop, List.nil_append]
  exact p.places_reap ▸ h

theorem Attends.stepLoop (h : p.Attends policy lost) (hs : p.stepLoop clock a = some p') :
    p'.Attends policy lost := by
  have hsource := h.source
  rw [taskPlaces, List.append_assoc] at hsource
  unfold Pipeline.stepLoop at hs
  split at hs
  case h_1 hloop =>
    rw [hloop] at hsource
    split at hs <;> cases hs
    · unfold leave
      split <;> exact ⟨hsource, h.numbered⟩
    · exact attends_reap h.numbered hsource rfl
  case h_2 hloop =>
    rw [hloop] at hsource
    cases hs
    exact attends_consumed h.numbered (hsource.consume clock.now)
  case h_3 call hloop =>
    rw [hloop] at hsource
    obtain ⟨next, hr, rfl⟩ := Option.map_eq_some_iff.1 hs
    exact attends_consumed h.numbered (hsource.resumeConsume hr)
  case h_4 call hloop =>
    rw [hloop] at hsource
    obtain ⟨next, hr, rfl⟩ := Option.map_eq_some_iff.1 hs
    exact attends_reject h.numbered (hsource.resumeSettle hr)
  case h_5 hloop =>
    rw [hloop] at hsource
    split at hs <;> cases hs
    exact attends_reap h.numbered hsource rfl
  case h_6 till hloop =>
    rw [hloop] at hsource
    split at hs <;> cases hs
    exact ⟨hsource, h.numbered⟩
  case h_7 ending hloop =>
    rw [hloop] at hsource
    split at hs <;> cases hs
    exact attends_reap h.numbered hsource rfl
  case h_8 => cases hs

/-! ## Dispatches -/

theorem attends_settled (h : p.Attends policy lost) (hd : d ∈ p.dispatches) {stats : Stats}
    (next : Source × Progress Settle Settled)
    (hs : ∀ rest, p.source.Attends true policy (d.places ++ rest) →
      next.1.Attends true policy ((Custody.ofSettle next.2).map Custody.place ++ rest)) :
    ({ p with stats }.settled d.id next).Attends policy lost := by
  obtain ⟨rest, hp, henter⟩ := exists_taskPlaces_enter h.numbered hd
  have hstage : ∀ stage, ({ d with stage } : Dispatch).places =
        (Custody.ofSettle next.2).map Custody.place →
      ({ p with source := next.1, stats }.enter d.id stage).Attends policy lost := by
    intro stage hstage
    have hbefore := h.source.perm (hp.append_right lost)
    rw [List.append_assoc] at hbefore
    have hafter := hs _ hbefore
    rw [← hstage, ← List.append_assoc] at hafter
    exact ⟨hafter.perm ((henter stage).symm.append_right lost), h.numbered.enter _ _⟩
  obtain ⟨source, q⟩ := next
  cases q with
  | waits call => exact hstage (.settling call) rfl
  | returns r => exact hstage .done rfl

/-- The processor is done with an order, whatever its answer. -/
theorem attends_answered (h : p.Attends policy lost) (hd : d ∈ p.dispatches)
    (hstage : d.stage = .processing) (error : Option OrderError) :
    (p.answered clock d error).Attends policy lost := by
  have hplaces : d.places = [.working d.message] := by rw [Dispatch.places, hstage]
  have hanswered : ∀ rest, p.source.Attends true policy (d.places ++ rest) →
      (p.source.record (.answered d.message error)).Attends true policy
        (.answered d.message error :: rest) := by
    intro rest hrest
    rw [hplaces] at hrest
    exact hrest.next (.answer d.message error) rfl
  cases error with
  | none =>
    apply attends_settled h hd (_, .waits _)
    intro rest hrest
    exact (hanswered rest hrest).onSuccess (.processed d.message)
  | some e =>
    apply attends_settled h hd
    intro rest hrest
    exact (hanswered rest hrest).onFail true (.failed d.message e) e.text

theorem Attends.stepDispatch (h : p.Attends policy lost) (hd : d ∈ p.dispatches)
    (hs : p.stepDispatch clock d a = some p') : p'.Attends policy lost := by
  unfold Pipeline.stepDispatch at hs
  split at hs
  case h_1 hstage =>
    cases hs
    obtain ⟨rest, hp, henter⟩ := exists_taskPlaces_enter h.numbered hd
    rw [Dispatch.places, hstage] at hp
    have hcall := (h.source.perm (hp.append_right lost)).next (.call d.message) rfl
    exact ⟨hcall.perm ((henter .processing).symm.append_right lost), h.numbered.enter _ _⟩
  case h_2 hstage =>
    cases hs
    exact attends_answered h hd hstage _
  case h_3 call _ hstage =>
    obtain ⟨next, hr, rfl⟩ := Option.map_eq_some_iff.1 hs
    apply attends_settled h hd
    intro rest hrest
    rw [Dispatch.places, hstage] at hrest
    exact hrest.resumeSettle hr
  case h_4 => cases hs

/-- Every step of every task lets things happen to messages where they are. -/
theorem Attends.step (h : p.Attends policy lost) {t : Task} (hs : p.step clock t a = some p') :
    p'.Attends policy lost := by
  cases t with
  | loop => exact h.stepLoop hs
  | dispatch id =>
    obtain ⟨d, hd, hs⟩ := Option.bind_eq_some_iff.1 hs
    exact h.stepDispatch (List.mem_of_find?_eq_some hd) hs

end Pipeline

/-! ## Runs -/

/-- A pipeline whose tasks may be cut off. -/
structure Operation where
  pipeline : Pipeline
  /-- Where the messages of the tasks were that were cut off. -/
  lost : List Place

namespace Operation

inductive Action where
  /-- The signal to stop is given or taken back. -/
  | signal (value : Bool)
  /-- Whoever may give the signal goes away. -/
  | dropSender
  /-- A task is told something and goes on. -/
  | advance (t : Task) (clock : Clock) (a : Answer)
  /-- A task is cut off while it waits; the loop takes its dispatches with it. -/
  | cut (t : Task)

/-- A pipeline that has just been started. -/
def new (policy : RetryPolicy) (errorBackoff : Nat) (signal : Bool) : Operation where
  pipeline := (Pipeline.new policy errorBackoff).start signal
  lost := []

/-- One step of whoever may give the signal or of a task, or the end of a task; `none` if nobody can
take it. -/
def step (x : Operation) : Action → Option Operation
  | .signal value => some { x with pipeline := x.pipeline.signal value }
  | .dropSender => some { x with pipeline := x.pipeline.dropSender }
  | .advance t clock a => (x.pipeline.step clock t a).map fun pipeline => { x with pipeline }
  | .cut .loop => some { pipeline := x.pipeline.abort, lost := x.pipeline.taskPlaces ++ x.lost }
  | .cut (.dispatch id) => (x.pipeline.dispatch? id).map fun d =>
    { pipeline := x.pipeline.enter d.id .done, lost := d.places ++ x.lost }

/-- The actions in this order; those that nobody can take are left out. -/
def run (x : Operation) (actions : List Action) : Operation := runSteps step x actions

/-- Where the messages are that were read: with the tasks, lost, in the backlog or settled. -/
def places (x : Operation) : List Place :=
  x.pipeline.taskPlaces ++ x.lost ++ x.pipeline.source.places

variable {policy : RetryPolicy} {x x' : Operation}

def Attends (policy : RetryPolicy) (x : Operation) : Prop := x.pipeline.Attends policy x.lost

theorem attends_new (policy : RetryPolicy) (errorBackoff : Nat) (signal : Bool) :
    (new policy errorBackoff signal).Attends policy :=
  ⟨.new true policy, .nil, fun _ h => nomatch h⟩

theorem Attends.step (h : x.Attends policy) {action : Action} (hs : x.step action = some x') :
    x'.Attends policy := by
  cases action with
  | signal value | dropSender =>
    cases hs
    exact ⟨h.source, h.numbered⟩
  | advance t clock a =>
    obtain ⟨pipeline, hp, rfl⟩ := Option.map_eq_some_iff.1 hs
    exact Pipeline.Attends.step h hp
  | cut t =>
    cases t with
    | loop =>
      cases hs
      exact ⟨h.source, .nil, fun _ hd => nomatch hd⟩
    | dispatch id =>
      obtain ⟨d, hd, rfl⟩ := Option.map_eq_some_iff.1 hs
      obtain ⟨rest, hp, henter⟩ :=
        Pipeline.exists_taskPlaces_enter h.numbered (List.mem_of_find?_eq_some hd)
      refine ⟨h.source.perm ?_, h.numbered.enter _ _⟩
      have hdone : (x.pipeline.enter d.id .done).taskPlaces.Perm rest := henter .done
      refine (hp.append_right x.lost).trans ?_
      rw [List.append_assoc]
      exact (List.perm_append_comm_assoc _ _ _).trans (hdone.symm.append_right _)

theorem Attends.run (h : x.Attends policy) (actions : List Action) :
    (x.run actions).Attends policy :=
  runSteps_keeps (fun h hs => h.step hs) h actions

/-! ### Dealings -/

/-- The dealings of a step: only a task that goes on has any. -/
def deals (x : Operation) (action : Action) (x' : Operation) : Journal :=
  match action with
  | .advance t _ a => x.pipeline.deals t a x'.pipeline
  | _ => []

/-- What goes on between the pipeline and its surroundings in these actions, the latest first. -/
def dealings (x : Operation) (actions : List Action) : Journal := tellSteps step deals x actions

theorem dealings_step {action : Action} (hs : x.step action = some x') :
    x'.pipeline.source.journal.dealings =
      x.deals action x' ++ x.pipeline.source.journal.dealings := by
  cases action with
  | signal value | dropSender =>
    cases hs
    rfl
  | advance t clock a =>
    obtain ⟨pipeline, hp, rfl⟩ := Option.map_eq_some_iff.1 hs
    exact Pipeline.dealings_step hp
  | cut t =>
    cases t with
    | loop =>
      cases hs
      rfl
    | dispatch id =>
      obtain ⟨d, -, rfl⟩ := Option.map_eq_some_iff.1 hs
      rfl

/-- A pipeline that has just been started keeps a journal that is true to its dealings. -/
theorem dealings_run (policy : RetryPolicy) (errorBackoff : Nat) (signal : Bool)
    (actions : List Action) :
    ((new policy errorBackoff signal).run actions).pipeline.source.journal.dealings =
      (new policy errorBackoff signal).dealings actions :=
  (record_runSteps (fun x : Operation => x.pipeline.source.journal.dealings) dealings_step _
    actions).trans (List.append_nil _)

end Operation

/-! ## Acknowledgements -/

/-- The transport has been asked to acknowledge the message. -/
def Place.isCommitted : Place → Bool
  | .committing _ | .settled _ => true
  | _ => false

/-- How a message that is now at a place comes to be acknowledged in its life. -/
structure Acknowledged (m : RawMessage) (x : Place) (life : Journal) : Prop extends
    Lived m x life where
  /-- The transport is asked once at most, whatever it says, and not as long as the message is held,
  worked on, put off or dead-lettered. -/
  once : life.commits = if x.isCommitted then [m] else []
  /-- It is asked right after the order of the message was processed, or after the sink was given
  a letter with all of the message. -/
  after : ∀ later earlier m', life = later ++ .committing m' :: earlier →
    (∃ q rest, earlier = .answered q none :: rest ∧ q.raw = m ∧
      Order.ofBytes m.payload = .ok q.value) ∨
    (∃ letter error rest, earlier = .sent letter error :: .sending letter :: rest ∧
      letter.offset = m.offset ∧ letter.payload = m.payload)

section
variable {noted : Bool} {policy : RetryPolicy} {m : RawMessage} {x : Place} {e : Event}
  {l earlier : Journal} {outcome : Outcome} {q : InFlight Order} {letter : DeadLetter}
  {error : Option IngestError}

theorem Place.HandsBack.isCommitted (h : x.HandsBack noted outcome q) : x.isCommitted = false := by
  cases h <;> rfl

namespace Journal.Life

theorem commits (h : Life noted policy m x l) :
    l.commits = if x.isCommitted then [m] else [] := by
  induction h with
  | read => rfl
  | next h leads ih =>
    cases leads with
    | acknowledge x q back =>
      rw [back.isCommitted] at ih
      rw [← h.message, back.message]
      exact congrArg (q.raw :: ·) ih
    | commit letter =>
      rw [← h.message]
      exact congrArg (letter.message :: ·) ih
    | postpone x q now back tries =>
      rw [back.isCommitted] at ih
      exact ih
    | bury x outcome q letter back =>
      rw [back.isCommitted] at ih
      exact ih
    | _ => exact ih

/-- A message that was answered for was so by the last event. -/
theorem exists_eq_answered {answer : Option OrderError}
    (h : Life noted policy m (.answered q answer) l) : ∃ rest, l = .answered q answer :: rest := by
  obtain ⟨e, rest, rfl, he⟩ := h.exists_eq_cons
  cases e <;> cases he
  exact ⟨rest, rfl⟩

/-- A letter that the sink is done with had been given to it. -/
theorem exists_eq_sent (h : Life noted policy m (.buried letter) l) :
    ∃ error rest, l = .sent letter error :: .sending letter :: rest := by
  generalize hx : Place.buried letter = x at h
  cases h with
  | read => cases hx
  | next h leads =>
    cases leads <;> cases hx
    obtain ⟨e, rest, rfl, he⟩ := h.exists_eq_cons
    cases e <;> cases he
    exact ⟨_, rest, rfl⟩

/-- Where the journal is told about the processor, an acknowledgement has its reason. -/
theorem acknowledged (h : Life true policy m x l) : Acknowledged m x l where
  toLived := h.lived
  once := h.commits
  after later earlier m' hl := by
    subst hl
    obtain ⟨hread, -⟩ | ⟨y, hy, leads⟩ := h.of_append.cons_cases
    · cases hread
    cases leads with
    | acknowledge y q back =>
      cases back
      obtain ⟨rest, rfl⟩ := hy.exists_eq_answered
      exact .inl ⟨q, rest, rfl, hy.message, hy.decoded rfl⟩
    | commit letter =>
      obtain ⟨error, rest, rfl⟩ := hy.exists_eq_sent
      have hmessage := hy.message
      subst hmessage
      exact .inr ⟨letter, error, rest, rfl, rfl, rfl⟩

end Journal.Life

end

namespace Operation

/-- How messages are acknowledged by an operation that had these dealings with its surroundings. -/
structure Acknowledges (x : Operation) (dealings : Journal) : Prop where
  /-- What the journal tells of the processor, the sink and the transport is what went on. -/
  faithful : x.pipeline.source.journal.dealings = dealings
  /-- It is dealt out into the lives of the messages, each with its acknowledgement. -/
  lives : ∃ lives, Shuffle lives x.pipeline.source.journal ∧
    List.Forall₂ (fun place life => ∃ m, Acknowledged m place life) x.places lives

/-- **At most one acknowledgement, and none too early**: whatever the transport, the processor and
the sink say, in any order of steps, and wherever tasks are cut off. -/
theorem run_acknowledges (policy : RetryPolicy) (errorBackoff : Nat) (signal : Bool)
    (actions : List Action) : ((new policy errorBackoff signal).run actions).Acknowledges
      ((new policy errorBackoff signal).dealings actions) := by
  obtain ⟨lives, hs, hl⟩ := ((attends_new policy errorBackoff signal).run actions).source.housed
  refine ⟨dealings_run policy errorBackoff signal actions, lives, hs, hl.imp ?_⟩
  rintro place life ⟨m, hm⟩
  exact ⟨m, hm.acknowledged⟩

end Operation

end OrderDesk
