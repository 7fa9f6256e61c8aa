import OrderDesk.Proofs.Ingest.Closing
import OrderDesk.Proofs.Ingest.Moves

/-!
# Stopping a pipeline

The loop looks at the signal to stop in one place, before it asks for a message. So a request is
seen late: where the loop is asking already it may obtain one more message, with which it does what
it always does (`Pipeline.Obtains`), and every other step obtains none (`Pipeline.Passes`). Nothing
else goes by the signal (`Pipeline.step_told`), and the loop does not end before its dispatches
(`Pipeline.Ended`). Together these say how an operation stops (`Operation.run_stops`), whatever the
transport, the sink and the processor say and in any order of steps.

A request that is taken back before the loop has looked at it is as none
(`Operation.not_prompt_of_taken_back`).
-/

namespace OrderDesk

/-! ## What the loop obtains -/

/-- The message that a call which takes messages comes to: it is handed out for an attempt, or its
payload is no order. -/
def Event.obtained? : Event → Option RawMessage
  | .offered q _ => some q.raw
  | .sending l => if l.reason = .undecodable then some l.message else none
  | _ => none

theorem Event.obtained?_of_isQuiet {e : Event} (h : e.isQuiet) : e.obtained? = none := by
  cases e <;> first | rfl | cases h

/-- The messages that the loop has obtained, the latest one first. -/
def Journal.obtained (j : Journal) : List RawMessage := j.filterMap Event.obtained?

namespace Source

variable {s s' : Source} {clock : Clock} {q : InFlight Order}

theorem Rests.obtained (h : s.Rests s') : s'.journal.obtained = s.journal.obtained := by
  obtain ⟨events, hquiet, rfl⟩ := h
  have hnone : events.filterMap Event.obtained? = [] :=
    List.filterMap_eq_nil_iff.2 fun e he => Event.obtained?_of_isQuiet (hquiet e he)
  rw [Journal.obtained, List.filterMap_append, hnone]
  rfl

theorem Takes.obtained (h : s.Takes clock q s') :
    s'.journal.obtained = q.raw :: s.journal.obtained := by
  cases h <;> rfl

/-- A message whose attempt has failed is not obtained by that. -/
theorem obtained_onFail (s : Source) (clock : Clock) (q : InFlight Order) (cause : String) :
    (s.onFail clock q true cause).1.journal.obtained = s.journal.obtained := by
  rcases s.onFail_cases clock q cause with ⟨-, h⟩ | ⟨-, backlog, -, h⟩ | ⟨-, -, h⟩ <;> rw [h] <;> rfl

end Source

/-- It may obtain a message before it looks at the signal again. -/
def Loop.asks : Loop → Bool
  | .polling | .consuming (.reading _) => true
  | _ => false

/-- It has ended, or is about to end. -/
def Loop.hasLeft : Loop → Bool
  | .draining _ | .finished _ | .aborted => true
  | _ => false

theorem Loop.asks_of_hasLeft {loop : Loop} (h : loop.hasLeft) : loop.asks = false := by
  cases loop <;> first | rfl | cases h

namespace Dispatch

variable {d d' d'' : Dispatch}

/-- It is the same dispatch at another time. -/
structure Continues (d d' : Dispatch) : Prop where
  id : d'.id = d.id
  message : d'.message = d.message

theorem Continues.refl (d : Dispatch) : d.Continues d := ⟨rfl, rfl⟩

theorem Continues.trans (h : d.Continues d') (h' : d'.Continues d'') : d.Continues d'' :=
  ⟨h'.id.trans h.id, h'.message.trans h.message⟩

end Dispatch

namespace Pipeline

variable {p p' p₀ : Pipeline} {clock : Clock} {a : Answer} {q : InFlight Order} {d : Dispatch}

def obtained (p : Pipeline) : List RawMessage := p.source.journal.obtained

/-- The loop obtains a message, and does with it what it always does. -/
inductive Obtains (clock : Clock) (p p' : Pipeline) : Prop
  /-- The order is valid, and a dispatch is started for it. -/
  | dispatched (q : InFlight Order) (taken : p.source.Takes clock q p'.source)
      (valid : q.value.validate clock.wall = .ok ())
      (dispatches : p'.dispatches = p.dispatches ++
        [{ id := p.started, message := q, stage := .queued }])
      (loop : p'.loop = .top)
  /-- The order breaks a rule, and its letter is given to the sink. -/
  | rejected (q : InFlight Order) (s : Source) (taken : p.source.Takes clock q s)
      (e : ValidationError) (invalid : q.value.validate clock.wall = .error e)
      (source : p'.source =
        s.record (.sending (q.raw.letter clock.wall q.tries .invalid e.text)))
      (dispatches : p'.dispatches = p.dispatches)
      (loop : p'.loop = .rejecting
        (.burying (.toSink (q.raw.letter clock.wall q.tries .invalid e.text))))
  /-- The payload is no order, and its letter is given to the sink. -/
  | refused (m : RawMessage) (e : Json.Error) (payload : Order.ofBytes m.payload = .error e)
      (source : p'.source = (p.source.record (.read m)).record
        (.sending (m.letter clock.wall 0 .undecodable e.message)))
      (dispatches : p'.dispatches = p.dispatches)
      (loop : p'.loop = .consuming
        (.refusing (.toSink (m.letter clock.wall 0 .undecodable e.message)) e))

theorem Obtains.exists_obtained (h : p.Obtains clock p') :
    ∃ m, p'.obtained = m :: p.obtained := by
  cases h with
  | dispatched q taken => exact ⟨q.raw, taken.obtained⟩
  | rejected q s taken e _ source =>
    refine ⟨q.raw, ?_⟩
    rw [obtained, source]
    exact taken.obtained
  | refused m e _ source =>
    refine ⟨m, ?_⟩
    rw [obtained, source]
    rfl

theorem Obtains.asks (h : p.Obtains clock p') : p'.loop.asks = false := by
  cases h with
  | dispatched _ _ _ _ loop | rejected _ _ _ _ _ _ _ loop | refused _ _ _ _ _ loop =>
    rw [loop]
    rfl

/-- No message is obtained. The loop may obtain one afterwards only if it could before, or if it has
looked at the signal and has found none; and it does not come back once it has left. -/
structure Passes (p p' : Pipeline) : Prop where
  obtained : p'.obtained = p.obtained
  asks : p'.loop.asks → p.loop.asks ∨ p.loop = .top ∧ p.stopRequested = false
  hasLeft : p.loop.hasLeft → p'.loop.hasLeft

/-- A message that was taken is given to a dispatch or rejected. -/
theorem obtains_receive (hd : p.dispatches = p₀.dispatches) (hn : p.started = p₀.started)
    (ht : p₀.source.Takes clock q p.source) : p₀.Obtains clock (p.receive clock q) := by
  unfold receive
  dsimp only
  split
  · rename_i hvalid
    refine .dispatched q ht hvalid ?_ rfl
    rw [← hd, ← hn]
    rfl
  · rename_i e hinvalid
    exact .rejected q p.source ht e hinvalid rfl hd rfl

/-- A call that has not come to a message, and has not begun to read, lets the loop go on. -/
theorem asks_consumed (p : Pipeline) (clock : Clock) {next : Source × Progress Consume Consumed}
    (hm : ∀ m, next.2 ≠ .returns (.message m)) (hr : ∀ t, next.2 ≠ .waits (.reading t)) :
    (p.consumed clock next).loop.asks = false := by
  obtain ⟨source, q⟩ := next
  cases q with
  | waits call =>
    cases call with
    | reading t => exact absurd rfl (hr t)
    | _ => rfl
  | returns r =>
    cases r with
    | message m => exact absurd rfl (hm m)
    | nothing => rfl
    | failed e =>
      cases e with
      | transport e =>
        cases e with
        | closed =>
          simp only [consumed]
          split <;> rfl
        | _ => rfl
      | _ => rfl

theorem passes_of_hasLeft (ho : p'.obtained = p.obtained) (hleft : p'.loop.hasLeft) :
    p.Passes p' := by
  refine ⟨ho, fun hasks => ?_, fun _ => hleft⟩
  rw [Loop.asks_of_hasLeft hleft] at hasks
  cases hasks

theorem passes_of_asks (ho : p'.obtained = p.obtained) (hleft : p.loop.hasLeft = false)
    (hasks : p'.loop.asks → p.loop.asks ∨ p.loop = .top ∧ p.stopRequested = false) :
    p.Passes p' := by
  refine ⟨ho, hasks, fun h => ?_⟩
  rw [hleft] at h
  cases h

theorem passes_consumed {next : Source × Progress Consume Consumed}
    (hleft : p.loop.hasLeft = false) (hs : p.source.Rests next.1)
    (hm : ∀ m, next.2 ≠ .returns (.message m)) (hr : ∀ t, next.2 ≠ .waits (.reading t)) :
    p.Passes (p.consumed clock next) := by
  obtain ⟨hsource, -⟩ := p.source_consumed clock hm
  refine passes_of_asks ?_ hleft fun hasks => ?_
  · rw [obtained, hsource]
    exact hs.obtained
  · rw [p.asks_consumed clock hm hr] at hasks
    cases hasks

/-- A call that takes a message goes on. -/
theorem obtains_or_passes_resume {call : Consume} {next : Source × Progress Consume Consumed}
    (hloop : p.loop = .consuming call) (h : call.resume p.source clock a = some next) :
    p.loop.asks ∧ p.Obtains clock (p.consumed clock next) ∨ p.Passes (p.consumed clock next) := by
  have hleft : p.loop.hasLeft = false := by rw [hloop]; rfl
  cases call with
  | reading since =>
    have hasks : p.loop.asks := by rw [hloop]; rfl
    cases a with
    | message m =>
      cases h
      unfold Consume.receive
      dsimp only
      split
      · rename_i o hpayload
        exact .inl ⟨hasks, obtains_receive rfl rfl (.fresh m o hpayload)⟩
      · rename_i e hpayload
        exact .inl ⟨hasks, .refused m e hpayload rfl rfl rfl⟩
    | nothing =>
      cases h
      exact .inr (passes_consumed hleft (.refl _) (by rintro _ ⟨⟩) (by rintro _ ⟨⟩))
    | readFailed e =>
      cases e with
      | closed =>
        cases h
        unfold Consume.finish
        split <;> exact .inr (passes_consumed hleft (.refl _) (by rintro _ ⟨⟩) (by rintro _ ⟨⟩))
      | _ =>
        cases h
        exact .inr (passes_consumed hleft (.refl _) (by rintro _ ⟨⟩) (by rintro _ ⟨⟩))
    | _ => cases h
  | resting till =>
    cases a <;> try cases h
    simp only [Consume.resume] at h
    split at h <;> cases h
    exact .inr (passes_consumed hleft (.refl _) (by rintro _ ⟨⟩) (by rintro _ ⟨⟩))
  | refusing b error =>
    simp only [Consume.resume] at h
    split at h
    · cases h
    all_goals
      rename_i hb
      cases h
      exact .inr (passes_consumed hleft (Burial.rests_resume hb) (by rintro _ ⟨⟩) (by rintro _ ⟨⟩))

theorem hasLeft_leave (p : Pipeline) (ending : Ending) : (p.leave ending).loop.hasLeft := by
  unfold leave
  dsimp only
  split <;> rfl

/-- Every step of the loop obtains a message, as it may, or obtains none. -/
theorem obtains_or_passes_stepLoop (hs : p.stepLoop clock a = some p') :
    p.loop.asks ∧ p.Obtains clock p' ∨ p.Passes p' := by
  unfold Pipeline.stepLoop at hs
  split at hs
  case h_1 hloop =>
    split at hs
    · cases hs
      exact .inr (passes_of_hasLeft rfl (p.hasLeft_leave .stopped))
    · rename_i hstop
      cases hs
      refine .inr (passes_of_asks rfl (by rw [hloop]; rfl) fun _ => .inr ⟨hloop, ?_⟩)
      exact Bool.eq_false_iff.2 hstop
  case h_2 hloop =>
    cases hs
    unfold Source.consume
    split
    · rename_i q backlog hdue
      exact .inl ⟨by rw [hloop]; rfl, obtains_receive rfl rfl (.again q backlog hdue)⟩
    · exact .inr (passes_of_asks rfl (by rw [hloop]; rfl) fun _ => .inl (by rw [hloop]; rfl))
  case h_3 call hloop =>
    obtain ⟨next, hr, rfl⟩ := Option.map_eq_some_iff.1 hs
    exact obtains_or_passes_resume hloop hr
  case h_4 call hloop =>
    obtain ⟨⟨source, progress⟩, hr, rfl⟩ := Option.map_eq_some_iff.1 hs
    have ho := (Settle.rests_resume hr).obtained
    cases progress with
    | waits call => exact .inr (passes_of_asks ho (by rw [hloop]; rfl) nofun)
    | returns r => exact .inr (passes_of_asks ho (by rw [hloop]; rfl) nofun)
  case h_5 hloop =>
    split at hs <;> cases hs
    exact .inr (passes_of_asks rfl (by rw [hloop]; rfl) nofun)
  case h_6 till hloop =>
    split at hs <;> cases hs
    exact .inr (passes_of_asks rfl (by rw [hloop]; rfl) nofun)
  case h_7 ending hloop =>
    split at hs <;> cases hs
    exact .inr (passes_of_hasLeft rfl rfl)
  case h_8 => cases hs

theorem obtained_settled (p : Pipeline) (id : Nat) (next : Source × Progress Settle Settled) :
    (p.settled id next).obtained = next.1.journal.obtained := by
  obtain ⟨source, q⟩ := next
  cases q <;> rfl

/-- A dispatch obtains nothing. -/
theorem obtained_stepDispatch (hs : p.stepDispatch clock d a = some p') :
    p'.obtained = p.obtained := by
  unfold stepDispatch at hs
  split at hs
  case h_1 =>
    cases hs
    rfl
  case h_2 error _ =>
    cases hs
    cases error with
    | none => exact obtained_settled ..
    | some e => exact (obtained_settled ..).trans (Source.obtained_onFail ..)
  case h_3 =>
    obtain ⟨next, hr, rfl⟩ := Option.map_eq_some_iff.1 hs
    exact (p.obtained_settled ..).trans (Settle.rests_resume hr).obtained
  case h_4 => cases hs

theorem obtains_or_passes_step {t : Task} (hs : p.step clock t a = some p') :
    t = .loop ∧ p.loop.asks ∧ p.Obtains clock p' ∨ p.Passes p' := by
  cases t with
  | loop => exact (obtains_or_passes_stepLoop hs).imp_left fun h => ⟨rfl, h⟩
  | dispatch id =>
    obtain ⟨d, -, hs⟩ := Option.bind_eq_some_iff.1 hs
    have hloop := loop_stepDispatch hs
    exact .inr ⟨obtained_stepDispatch hs, fun h => .inl (hloop ▸ h), fun h => hloop ▸ h⟩

/-! ## What does not depend on the signal -/

/-- The same pipeline where another signal was given. -/
def told (p : Pipeline) (value alive : Bool) : Pipeline :=
  { p with stopSignal := value, senderAlive := alive }

theorem reject_told (p : Pipeline) (next : Source × Progress Settle Settled)
    (value alive : Bool) : (p.told value alive).reject next = (p.reject next).told value alive := by
  obtain ⟨source, q⟩ := next
  cases q <;> rfl

theorem receive_told (p : Pipeline) (clock : Clock) (m : InFlight Order) (value alive : Bool) :
    (p.told value alive).receive clock m = (p.receive clock m).told value alive := by
  unfold receive
  dsimp only
  split
  · rfl
  · rename_i e _
    exact reject_told { p with stats := { p.stats with consumed := p.stats.consumed + 1
                                                       invalid := p.stats.invalid + 1 } }
      (p.source.onFail clock m false e.text) value alive

theorem consumed_told (p : Pipeline) (clock : Clock) (next : Source × Progress Consume Consumed)
    (value alive : Bool) :
    (p.told value alive).consumed clock next = (p.consumed clock next).told value alive := by
  obtain ⟨source, q⟩ := next
  cases q with
  | waits call => rfl
  | returns r =>
    cases r with
    | message m => exact receive_told { p with source, loop := .top } ..
    | nothing => rfl
    | failed e =>
      cases e with
      | transport e =>
        cases e with
        | closed =>
          simp only [consumed]
          rw [apply_ite fun p : Pipeline => p.told value alive]
          rfl
        | _ => rfl
      | _ => rfl

theorem settled_told (p : Pipeline) (id : Nat) (next : Source × Progress Settle Settled)
    (value alive : Bool) :
    (p.told value alive).settled id next = (p.settled id next).told value alive := by
  obtain ⟨source, q⟩ := next
  cases q <;> rfl

theorem stepDispatch_told (p : Pipeline) (clock : Clock) (d : Dispatch) (a : Answer)
    (value alive : Bool) :
    (p.told value alive).stepDispatch clock d a =
      (p.stepDispatch clock d a).map (·.told value alive) := by
  unfold stepDispatch
  split
  · rfl
  · rename_i error _
    cases error with
    | none => rfl
    | some e => exact congrArg some (settled_told { p with stats := _ } ..)
  · rename_i call _ _
    rw [Option.map_map]
    exact congrArg (Option.map · _) (funext fun next => settled_told p d.id next value alive)
  · rfl

theorem stepLoop_told (p : Pipeline) (clock : Clock) (a : Answer) (h : p.loop ≠ .top)
    (value alive : Bool) :
    (p.told value alive).stepLoop clock a = (p.stepLoop clock a).map (·.told value alive) := by
  have hloop : (p.told value alive).loop = p.loop := rfl
  unfold stepLoop
  rw [hloop]
  split
  case h_1 htop => exact absurd htop h
  case h_2 => exact congrArg some (consumed_told ..)
  case h_3 call a _ =>
    rw [Option.map_map]
    exact congrArg (Option.map · _) (funext fun next => consumed_told p clock next value alive)
  case h_4 call a _ =>
    rw [Option.map_map]
    exact congrArg (Option.map · _) (funext fun next => reject_told p next value alive)
  case h_5 | h_6 | h_7 =>
    rw [apply_ite (Option.map _)]
    rfl
  case h_8 => rfl

/-- Nothing but a loop at its top goes by the signal. -/
theorem step_told (p : Pipeline) (clock : Clock) (t : Task) (a : Answer)
    (h : t = .loop → p.loop ≠ .top) (value alive : Bool) :
    (p.told value alive).step clock t a = (p.step clock t a).map (·.told value alive) := by
  cases t with
  | loop => exact p.stepLoop_told clock a (h rfl) value alive
  | dispatch id =>
    change (p.dispatch? id).bind _ = _
    rw [step, Option.map_bind]
    exact congrArg _ (funext fun d => p.stepDispatch_told clock d a value alive)

theorem told_self (p : Pipeline) : p.told p.stopSignal p.senderAlive = p := rfl

/-- No task gives the signal or takes it back. -/
theorem signal_step {t : Task} (hs : p.step clock t a = some p') :
    p'.stopSignal = p.stopSignal ∧ p'.senderAlive = p.senderAlive := by
  by_cases htop : t = .loop ∧ p.loop = .top
  · obtain ⟨rfl, hloop⟩ := htop
    cases a with
    | due =>
      simp only [step, stepLoop, hloop] at hs
      split at hs <;> cases hs <;> exact ⟨rfl, rfl⟩
    | _ => simp only [step, stepLoop, hloop, reduceCtorEq] at hs
  · -- a step that does not look at the signal leaves it as it was
    have htold := p.step_told clock t a (fun ht hl => htop ⟨ht, hl⟩) p.stopSignal p.senderAlive
    rw [told_self, hs, Option.map_some] at htold
    have hp' := Option.some.inj htold
    exact ⟨by rw [hp']; rfl, by rw [hp']; rfl⟩

/-! ## Dispatches on their way -/

/-- A loop that has ended has no dispatch. -/
def Ended (p : Pipeline) : Prop := ∀ ending, p.loop = .finished ending → p.dispatches = []

theorem ended_of_ne (h : ∀ ending, p.loop ≠ .finished ending) : p.Ended :=
  fun ending he => absurd he (h ending)

theorem dispatches_reject (p : Pipeline) (next : Source × Progress Settle Settled) :
    (p.reject next).dispatches = p.dispatches ∧ (p.reject next).Ended := by
  obtain ⟨source, q⟩ := next
  cases q <;> exact ⟨rfl, ended_of_ne fun _ => Loop.noConfusion⟩

theorem prefix_receive (p : Pipeline) (clock : Clock) (m : InFlight Order) :
    p.dispatches <+: (p.receive clock m).dispatches ∧ (p.receive clock m).Ended := by
  unfold receive
  dsimp only
  split
  · exact ⟨List.prefix_append .., ended_of_ne fun _ => Loop.noConfusion⟩
  · rename_i e _
    obtain ⟨hsame, hended⟩ := dispatches_reject
      { p with stats := { p.stats with consumed := p.stats.consumed + 1
                                       invalid := p.stats.invalid + 1 } }
      (p.source.onFail clock m false e.text)
    exact ⟨hsame ▸ List.prefix_rfl, hended⟩

theorem prefix_consumed (p : Pipeline) (clock : Clock)
    (next : Source × Progress Consume Consumed) :
    p.dispatches <+: (p.consumed clock next).dispatches ∧ (p.consumed clock next).Ended := by
  obtain ⟨source, q⟩ := next
  cases q with
  | waits call => exact ⟨List.prefix_rfl, ended_of_ne fun _ => Loop.noConfusion⟩
  | returns r =>
    cases r with
    | message m =>
      exact prefix_receive { p with source, loop := .top } clock m
    | nothing => exact ⟨List.prefix_rfl, ended_of_ne fun _ => Loop.noConfusion⟩
    | failed e =>
      cases e with
      | transport e =>
        cases e with
        | closed =>
          simp only [consumed]
          split
          · rename_i hnone
            exact ⟨List.prefix_rfl, fun _ _ => List.isEmpty_iff.1 hnone⟩
          · exact ⟨List.prefix_rfl, ended_of_ne fun _ => Loop.noConfusion⟩
        | _ => exact ⟨List.prefix_rfl, ended_of_ne fun _ => Loop.noConfusion⟩
      | _ => exact ⟨List.prefix_rfl, ended_of_ne fun _ => Loop.noConfusion⟩

theorem mem_reap (hd : d ∈ p.dispatches) : d.isDone ∨ d ∈ p.reap.dispatches := by
  cases hdone : d.isDone with
  | true => exact .inl rfl
  | false => exact .inr (List.mem_filter.2 ⟨hd, by rw [hdone]; rfl⟩)

/-- The loop puts away the dispatches that are done and no others, and it has none when it ends. -/
theorem dispatches_stepLoop (hs : p.stepLoop clock a = some p') :
    (∀ d ∈ p.dispatches, d.isDone ∨ d ∈ p'.dispatches) ∧ p'.Ended := by
  unfold Pipeline.stepLoop at hs
  split at hs
  case h_1 =>
    split at hs <;> cases hs
    · refine ⟨fun d hd => .inr hd, fun ending he => ?_⟩
      unfold leave at he ⊢
      dsimp only at he ⊢
      split at he
      · exact List.isEmpty_iff.1 ‹_›
      · cases he
    · exact ⟨fun d hd => mem_reap hd, ended_of_ne fun _ => Loop.noConfusion⟩
  case h_2 =>
    cases hs
    obtain ⟨hstays, hended⟩ := p.prefix_consumed clock (p.source.consume clock.now)
    exact ⟨fun d hd => .inr (hstays.mem hd), hended⟩
  case h_3 =>
    obtain ⟨next, -, rfl⟩ := Option.map_eq_some_iff.1 hs
    obtain ⟨hstays, hended⟩ := p.prefix_consumed clock next
    exact ⟨fun d hd => .inr (hstays.mem hd), hended⟩
  case h_4 =>
    obtain ⟨next, -, rfl⟩ := Option.map_eq_some_iff.1 hs
    obtain ⟨hsame, hended⟩ := p.dispatches_reject next
    exact ⟨fun d hd => .inr (hsame ▸ hd), hended⟩
  case h_5 =>
    split at hs <;> cases hs
    exact ⟨fun d hd => mem_reap hd, ended_of_ne fun _ => Loop.noConfusion⟩
  case h_6 =>
    split at hs <;> cases hs
    exact ⟨fun d hd => .inr hd, ended_of_ne fun _ => Loop.noConfusion⟩
  case h_7 =>
    split at hs
    · rename_i hall
      cases hs
      exact ⟨fun d hd => mem_reap hd, fun _ _ => reap_eq_nil hall⟩
    · cases hs
  case h_8 => cases hs

theorem exists_continues_enter (hd : d ∈ p.dispatches) (id : Nat) (stage : Dispatch.Stage) :
    ∃ d' ∈ (p.enter id stage).dispatches, d.Continues d' := by
  refine ⟨_, List.mem_map_of_mem hd, ?_⟩
  split <;> exact ⟨rfl, rfl⟩

theorem exists_enter_settled (p : Pipeline) (id : Nat)
    (next : Source × Progress Settle Settled) :
    ∃ stage, (p.settled id next).dispatches = (p.enter id stage).dispatches := by
  obtain ⟨source, q⟩ := next
  cases q with
  | waits call => exact ⟨.settling call, rfl⟩
  | returns r => exact ⟨.done, rfl⟩

/-- A dispatch takes its steps for itself. -/
theorem exists_enter_stepDispatch (hs : p.stepDispatch clock d a = some p') :
    ∃ stage, p'.dispatches = (p.enter d.id stage).dispatches := by
  unfold stepDispatch at hs
  split at hs
  case h_1 =>
    cases hs
    exact ⟨.processing, rfl⟩
  case h_2 error _ =>
    cases hs
    cases error with
    | none => exact ⟨.settling _, rfl⟩
    | some e => exact exists_enter_settled { p with stats := _ } d.id _
  case h_3 =>
    obtain ⟨next, -, rfl⟩ := Option.map_eq_some_iff.1 hs
    exact p.exists_enter_settled d.id next
  case h_4 => cases hs

theorem dispatch?_eq_none (h : p.dispatches = []) (id : Nat) : p.dispatch? id = none := by
  rw [dispatch?, h]
  rfl

/-- A step leaves every dispatch there that is not done. -/
theorem exists_continues_step {t : Task} (hs : p.step clock t a = some p')
    (hd : d ∈ p.dispatches) : d.isDone ∨ ∃ d' ∈ p'.dispatches, d.Continues d' := by
  cases t with
  | loop => exact ((dispatches_stepLoop hs).1 d hd).imp_right fun h => ⟨d, h, .refl d⟩
  | dispatch id =>
    obtain ⟨e, -, hs⟩ := Option.bind_eq_some_iff.1 hs
    obtain ⟨stage, hdispatches⟩ := exists_enter_stepDispatch hs
    rw [hdispatches]
    exact .inr (exists_continues_enter hd e.id stage)

theorem Ended.step (h : p.Ended) {t : Task} (hs : p.step clock t a = some p') : p'.Ended := by
  cases t with
  | loop => exact (dispatches_stepLoop hs).2
  | dispatch id =>
    obtain ⟨e, he, hs⟩ := Option.bind_eq_some_iff.1 hs
    refine ended_of_ne fun ending hloop => ?_
    -- a loop that has ended has no dispatch that could take a step
    rw [loop_stepDispatch hs] at hloop
    rw [dispatch?_eq_none (h ending hloop)] at he
    cases he

theorem loop_step_of_aborted (h : p.loop = .aborted) {t : Task}
    (hs : p.step clock t a = some p') : p'.loop = .aborted := by
  cases t with
  | loop => simp only [step, stepLoop, h, reduceCtorEq] at hs
  | dispatch id =>
    obtain ⟨e, -, hs⟩ := Option.bind_eq_some_iff.1 hs
    exact (loop_stepDispatch hs).trans h

end Pipeline

/-! ## Operations -/

namespace Operation

variable {policy : RetryPolicy} {x x' : Operation} {action : Action} {actions later : List Action}
  {ms : List RawMessage} {d : Dispatch}

theorem run_append (x : Operation) (first rest : List Action) :
    x.run (first ++ rest) = (x.run first).run rest := List.foldl_append ..

/-- Every step of an operation has the loop obtain a message, as it may, or none is obtained. -/
theorem obtains_or_passes (hs : x.step action = some x') :
    (∃ clock a, action = .advance .loop clock a ∧ x.pipeline.loop.asks ∧
      x.pipeline.Obtains clock x'.pipeline) ∨ x.pipeline.Passes x'.pipeline := by
  cases action with
  | signal value | dropSender =>
    cases hs
    exact .inr ⟨rfl, .inl, id⟩
  | advance t clock a =>
    obtain ⟨pipeline, hp, rfl⟩ := Option.map_eq_some_iff.1 hs
    refine (Pipeline.obtains_or_passes_step hp).imp_left ?_
    rintro ⟨rfl, hasks, hobtains⟩
    exact ⟨clock, a, rfl, hasks, hobtains⟩
  | cut t =>
    cases t with
    | loop =>
      cases hs
      exact .inr (Pipeline.passes_of_hasLeft rfl rfl)
    | dispatch id =>
      obtain ⟨d, -, rfl⟩ := Option.map_eq_some_iff.1 hs
      exact .inr ⟨rfl, .inl, fun h => h⟩

theorem hasLeft_step (h : x.pipeline.loop.hasLeft) (hs : x.step action = some x') :
    x'.pipeline.loop.hasLeft := by
  rcases obtains_or_passes hs with ⟨clock, a, -, hasks, -⟩ | hpasses
  · rw [Loop.asks_of_hasLeft h] at hasks
    cases hasks
  · exact hpasses.hasLeft h

/-! ### From a request on -/

/-- The loop has left, or it will as soon as it looks at the signal. -/
def Stopping (x : Operation) : Prop := x.pipeline.loop.hasLeft ∨ x.pipeline.stopRequested

/-- The request to stop is not taken back before the loop has looked at it, unless whoever might take
it back is gone. -/
def Stands (x : Operation) (later : List Action) : Prop :=
  ∀ first rest, later = first ++ .signal false :: rest →
    (x.run first).pipeline.loop.hasLeft ∨ (x.run first).pipeline.senderAlive = false

/-- Who only asks to stop takes nothing back. -/
theorem stands_of_notMem (h : .signal false ∉ later) : x.Stands later := by
  rintro first rest rfl
  exact absurd (List.mem_append_right _ List.mem_cons_self) h

theorem Stands.cons (h : x.Stands (action :: later)) :
    ((x.step action).getD x).Stands later := by
  rintro first rest rfl
  exact h (action :: first) rest rfl

theorem Stopping.step (h : x.Stopping)
    (hkept : action = .signal false → x.pipeline.loop.hasLeft ∨ x.pipeline.senderAlive = false)
    (hs : x.step action = some x') : x'.Stopping := by
  rcases h with hleft | hstop
  · exact .inl (hasLeft_step hleft hs)
  cases action with
  | signal value =>
    cases hs
    cases value with
    | true => exact .inr rfl
    | false =>
      refine (hkept rfl).imp_right fun hgone => ?_
      rw [Pipeline.stopRequested, Pipeline.signal, hgone]
      rfl
  | dropSender =>
    cases hs
    exact .inr (Bool.or_true _)
  | advance t clock a =>
    obtain ⟨pipeline, hp, rfl⟩ := Option.map_eq_some_iff.1 hs
    obtain ⟨hsignal, hsender⟩ := Pipeline.signal_step hp
    refine .inr ?_
    rw [Pipeline.stopRequested] at hstop ⊢
    rwa [hsignal, hsender]
  | cut t =>
    cases t with
    | loop =>
      cases hs
      exact .inl rfl
    | dispatch id =>
      obtain ⟨d, -, rfl⟩ := Option.map_eq_some_iff.1 hs
      exact .inr hstop

/-- Since it had obtained the messages `ms`, the loop is to stop and has obtained one more at most;
after that one it asks for none. -/
structure Prompt (ms : List RawMessage) (x : Operation) : Prop where
  stopping : x.Stopping
  obtained : x.pipeline.obtained = ms ∨
    ∃ m, x.pipeline.obtained = m :: ms ∧ x.pipeline.loop.asks = false

theorem Prompt.step (h : x.Prompt ms) (hstop : x'.Stopping) (hs : x.step action = some x') :
    x'.Prompt ms := by
  refine ⟨hstop, ?_⟩
  rcases obtains_or_passes hs with ⟨clock, a, -, hasks, hobtains⟩ | hpasses
  · -- the loop could still obtain a message, so it had obtained none before
    obtain ⟨m, hm⟩ := hobtains.exists_obtained
    have hms : x.pipeline.obtained = ms := by
      refine h.obtained.resolve_right ?_
      rintro ⟨_, -, hno⟩
      rw [hno] at hasks
      cases hasks
    exact .inr ⟨m, hms ▸ hm, hobtains.asks⟩
  · rw [hpasses.obtained]
    refine h.obtained.imp_right ?_
    rintro ⟨m, hm, hno⟩
    refine ⟨m, hm, Bool.eq_false_iff.2 fun hasks => ?_⟩
    -- to ask again it would have to find no request at its top
    rcases hpasses.asks hasks with hasks | ⟨htop, hnone⟩
    · rw [hno] at hasks
      cases hasks
    · rcases h.stopping with hleft | hstop
      · rw [htop] at hleft
        cases hleft
      · rw [hnone] at hstop
        cases hstop

theorem Prompt.run (h : x.Prompt ms) (hstands : x.Stands later) : (x.run later).Prompt ms := by
  induction later generalizing x with
  | nil => exact h
  | cons action later ih =>
    refine ih (x := (x.step action).getD x) ?_ hstands.cons
    cases hs : x.step action with
    | none => exact h
    | some x' =>
      refine h.step (h.stopping.step (fun he => ?_) hs) hs
      subst he
      exact hstands [] later rfl

/-! ### What is under way goes on -/

/-- The same operation where another signal was given. -/
def told (x : Operation) (value alive : Bool) : Operation :=
  { x with pipeline := x.pipeline.told value alive }

/-- A step that does not look at the signal is the same whatever the signal is. -/
theorem exists_step_told (htop : x.pipeline.loop ≠ .top) (action : Action) (value alive : Bool) :
    ∃ value' alive', ((x.told value alive).step action).getD (x.told value alive) =
      ((x.step action).getD x).told value' alive' := by
  cases action with
  | signal given => exact ⟨given, alive, rfl⟩
  | dropSender => exact ⟨value, false, rfl⟩
  | advance t clock a =>
    refine ⟨value, alive, ?_⟩
    have hstep := x.pipeline.step_told clock t a (fun _ => htop) value alive
    simp only [step, told, hstep]
    cases x.pipeline.step clock t a <;> rfl
  | cut t =>
    refine ⟨value, alive, ?_⟩
    cases t with
    | loop => rfl
    | dispatch id =>
      change (((x.pipeline.dispatch? id).map _).getD _) = _
      simp only [step]
      cases x.pipeline.dispatch? id <;> rfl

theorem exists_run_told (first : List Action)
    (htop : ∀ pre action post, first = pre ++ action :: post → (x.run pre).pipeline.loop ≠ .top)
    (value alive : Bool) :
    ∃ value' alive', (x.told value alive).run first = (x.run first).told value' alive' := by
  induction first generalizing x value alive with
  | nil => exact ⟨value, alive, rfl⟩
  | cons action first ih =>
    have hstart : x.pipeline.loop ≠ .top := htop [] action first rfl
    obtain ⟨value', alive', hstep⟩ := exists_step_told hstart action value alive
    change ∃ value' alive',
      (((x.told value alive).step action).getD (x.told value alive)).run first = _
    rw [hstep]
    refine ih (fun pre action' post he => ?_) value' alive'
    exact htop (action :: pre) action' post (congrArg (action :: ·) he)

/-! ### Every dispatch comes to its end -/

theorem exists_continues (hs : x.step action = some x') (hgoing : x'.pipeline.loop ≠ .aborted)
    (hd : d ∈ x.pipeline.dispatches) :
    d.isDone ∨ ∃ d' ∈ x'.pipeline.dispatches, d.Continues d' := by
  cases action with
  | signal value | dropSender =>
    cases hs
    exact .inr ⟨d, hd, .refl d⟩
  | advance t clock a =>
    obtain ⟨pipeline, hp, rfl⟩ := Option.map_eq_some_iff.1 hs
    exact Pipeline.exists_continues_step hp hd
  | cut t =>
    cases t with
    | loop =>
      cases hs
      exact absurd rfl hgoing
    | dispatch id =>
      obtain ⟨e, -, rfl⟩ := Option.map_eq_some_iff.1 hs
      exact .inr (Pipeline.exists_continues_enter hd e.id .done)

/-- What neither the signal nor a task nor the end of one changes about a pipeline holds of it all
along. -/
theorem keeps_run {P : Pipeline → Prop} (told : ∀ {p} value alive, P p → P (p.told value alive))
    (step : ∀ {p p' clock t a}, P p → p.step clock t a = some p' → P p')
    (abort : ∀ {p}, P p → P p.abort)
    (enter : ∀ {p : Pipeline} {id d}, P p → p.dispatch? id = some d → P (p.enter d.id .done))
    (h : P x.pipeline) (actions : List Action) : P (x.run actions).pipeline := by
  refine runSteps_keeps (P := fun x : Operation => P x.pipeline) ?_ h actions
  intro x x' action h hs
  cases action with
  | signal value =>
    cases hs
    exact told value x.pipeline.senderAlive h
  | dropSender =>
    cases hs
    exact told x.pipeline.stopSignal false h
  | advance t clock a =>
    obtain ⟨pipeline, hp, rfl⟩ := Option.map_eq_some_iff.1 hs
    exact step h hp
  | cut t =>
    cases t with
    | loop =>
      cases hs
      exact abort h
    | dispatch id =>
      obtain ⟨d, hd, rfl⟩ := Option.map_eq_some_iff.1 hs
      exact enter h hd

theorem aborted_run (h : x.pipeline.loop = .aborted) (actions : List Action) :
    (x.run actions).pipeline.loop = .aborted :=
  keeps_run (P := fun p => p.loop = .aborted) (fun _ _ h => h)
    (fun h hs => Pipeline.loop_step_of_aborted h hs) (fun _ => rfl) (fun h _ => h) h actions

theorem ended_run (h : x.pipeline.Ended) (actions : List Action) :
    (x.run actions).pipeline.Ended := by
  refine keeps_run (fun _ _ h => h) (fun h hs => h.step hs)
    (fun _ => Pipeline.ended_of_ne fun _ => Loop.noConfusion) ?_ h actions
  intro p id d h hd
  refine Pipeline.ended_of_ne fun ending hloop => ?_
  rw [Pipeline.dispatch?_eq_none (h ending hloop)] at hd
  cases hd

/-- Where none is left in the end, every dispatch was done before. -/
theorem exists_done (hgoing : (x.run actions).pipeline.loop ≠ .aborted)
    (hnone : (x.run actions).pipeline.dispatches = []) (hd : d ∈ x.pipeline.dispatches) :
    ∃ mid rest, actions = mid ++ rest ∧
      ∃ d' ∈ (x.run mid).pipeline.dispatches, d.Continues d' ∧ d'.isDone := by
  induction actions generalizing x d with
  | nil =>
    rw [show x.pipeline.dispatches = [] from hnone] at hd
    cases hd
  | cons action actions ih =>
    cases hdone : d.isDone with
    | true => exact ⟨[], action :: actions, rfl, d, hd, .refl d, hdone⟩
    | false =>
      obtain ⟨d', hd', hsame⟩ : ∃ d' ∈ ((x.step action).getD x).pipeline.dispatches,
          d.Continues d' := by
        cases hs : x.step action with
        | none => exact ⟨d, hd, .refl d⟩
        | some x' =>
          have hx' : x'.pipeline.loop ≠ .aborted := fun he => by
            refine hgoing ?_
            change (((x.step action).getD x).run actions).pipeline.loop = _
            rw [hs]
            exact aborted_run he actions
          refine (exists_continues hs hx' hd).resolve_left ?_
          rw [hdone]
          exact Bool.false_ne_true
      obtain ⟨mid, rest, rfl, d'', hd'', hsame', hend⟩ := ih hgoing hnone hd'
      exact ⟨action :: mid, rest, rfl, d'', hd'', hsame.trans hsame', hend⟩

/-! ### Every message is kept -/

/-- Every message that was read is in the backlog, was settled, or was lost with a task that was cut
off, once the tasks have ended. -/
theorem Attends.reads_perm (h : x.Attends policy) (hloop : x.pipeline.loop.places = [])
    (hnone : x.pipeline.dispatches = []) :
    x.pipeline.source.journal.reads.Perm (x.pipeline.source.backlog.messages.map (·.raw) ++
      x.pipeline.source.journal.settled ++ x.lost.map Place.message) := by
  have hperm := h.source.housed.reads_perm
  rw [Pipeline.taskPlaces, hloop, hnone, List.flatMap_nil, List.append_nil, List.nil_append,
    List.map_append, Source.places, List.map_append, List.map_map, List.map_map] at hperm
  have hsettled : x.pipeline.source.journal.settled.map (Place.message ∘ .settled) =
      x.pipeline.source.journal.settled := List.map_id _
  rw [hsettled] at hperm
  exact hperm.trans List.perm_append_comm

theorem lost_run (h : ∀ t, .cut t ∉ actions) : (x.run actions).lost = x.lost := by
  refine runSteps_keeps_of_mem (P := fun y : Operation => y.lost = x.lost) ?_ rfl
  intro y y' action hmem hy hs
  cases action with
  | signal value | dropSender =>
    cases hs
    exact hy
  | advance t clock a =>
    obtain ⟨pipeline, -, rfl⟩ := Option.map_eq_some_iff.1 hs
    exact hy
  | cut t => exact absurd hmem (h t)

/-! ### Stopping -/

/-- How an operation goes on to which a stop was requested. -/
structure Stops (x : Operation) (later : List Action) : Prop where
  /-- One more message is obtained at most. -/
  prompt : ∃ m? : Option RawMessage,
    (x.run later).pipeline.obtained = m?.toList ++ x.pipeline.obtained
  /-- The step that obtains it does with it what is always done. -/
  handled : ∀ first action rest, later = first ++ action :: rest →
    (x.run (first ++ [action])).pipeline.obtained ≠ (x.run first).pipeline.obtained →
    ∃ clock a, action = .advance .loop clock a ∧
      (x.run first).pipeline.Obtains clock (x.run (first ++ [action])).pipeline
  /-- Until the loop comes to look at the signal, everything goes on as with any other signal. -/
  unhurried : ∀ first rest, later = first ++ rest →
    (∀ pre action post, first = pre ++ action :: post → (x.run pre).pipeline.loop ≠ .top) →
    ∀ value alive, ∃ value' alive',
      (x.told value alive).run first = (x.run first).told value' alive'

/-- How it is when the loop has ended after these actions. -/
structure Completed (x : Operation) (actions : List Action) : Prop where
  dispatches : (x.run actions).pipeline.dispatches = []
  /-- Every dispatch that there was at any time has come to its end. -/
  done : ∀ first rest, actions = first ++ rest → ∀ d ∈ (x.run first).pipeline.dispatches,
    ∃ mid post, rest = mid ++ post ∧
      ∃ d' ∈ (x.run (first ++ mid)).pipeline.dispatches, d.Continues d' ∧ d'.isDone
  /-- Every message that was read waits for another attempt, was settled, or was lost with a task
  that was cut off. -/
  kept : (x.run actions).pipeline.source.journal.reads.Perm
    ((x.run actions).pipeline.source.backlog.messages.map (·.raw) ++
      (x.run actions).pipeline.source.journal.settled ++
      (x.run actions).lost.map Place.message)
  lost : (∀ t, .cut t ∉ actions) → (x.run actions).lost = []

theorem Stopping.stops (h : x.Stopping) (hstands : x.Stands later) : x.Stops later where
  prompt := by
    have hprompt : x.Prompt x.pipeline.obtained := ⟨h, .inl rfl⟩
    rcases (hprompt.run hstands).obtained with hsame | ⟨m, hm, -⟩
    · exact ⟨none, hsame⟩
    · exact ⟨some m, hm⟩
  handled := by
    intro first action rest _ hne
    rw [run_append] at hne ⊢
    change (((x.run first).step action).getD (x.run first)).pipeline.obtained ≠ _ at hne
    change ∃ clock a, _ ∧ (x.run first).pipeline.Obtains clock
      (((x.run first).step action).getD (x.run first)).pipeline
    cases hs : (x.run first).step action with
    | none =>
      rw [hs] at hne
      exact absurd rfl hne
    | some x' =>
      rw [hs] at hne
      rcases obtains_or_passes hs with ⟨clock, a, he, -, hobtains⟩ | hpasses
      · exact ⟨clock, a, he, hobtains⟩
      · exact absurd hpasses.obtained hne
  unhurried := by
    intro first _ _ htop value alive
    exact exists_run_told first htop value alive

theorem completed_of_finished (policy : RetryPolicy) (errorBackoff : Nat) (signal : Bool)
    {ending : Ending}
    (h : ((new policy errorBackoff signal).run actions).pipeline.loop = .finished ending) :
    (new policy errorBackoff signal).Completed actions := by
  have hended : (new policy errorBackoff signal).pipeline.Ended :=
    Pipeline.ended_of_ne fun _ => Loop.noConfusion
  have hnone := ended_run hended actions ending h
  refine ⟨hnone, ?_, ?_, fun hcut => lost_run hcut⟩
  · rintro first rest rfl d hd
    rw [run_append] at h hnone
    obtain ⟨mid, post, hrest, hdone⟩ :=
      exists_done (fun he => Loop.noConfusion (h.symm.trans he)) hnone hd
    rw [← run_append] at hdone
    exact ⟨mid, post, hrest, hdone⟩
  · have hattends := (attends_new policy errorBackoff signal).run actions
    refine hattends.reads_perm ?_ hnone
    rw [h]
    rfl

/-- **A stop is prompt and clean.** From a request on that is not taken back before the loop looks at
it, wherever the loop is then, it obtains one more message at most and does with it what it always
does; a call that takes a message goes on to its end, as everything does, until the loop looks at the
signal. When the loop has ended, so has every dispatch, those started before the request and the one
for the last message, and no message that was read was dropped. -/
theorem run_stops (policy : RetryPolicy) (errorBackoff : Nat) (signal : Bool)
    (before later : List Action)
    (requested : ((new policy errorBackoff signal).run before).pipeline.stopRequested)
    (stands : ((new policy errorBackoff signal).run before).Stands later) :
    ((new policy errorBackoff signal).run before).Stops later ∧
      ∀ ending, ((new policy errorBackoff signal).run (before ++ later)).pipeline.loop =
          .finished ending →
        (new policy errorBackoff signal).Completed (before ++ later) := by
  have hstopping : ((new policy errorBackoff signal).run before).Stopping := .inr requested
  exact ⟨hstopping.stops stands, fun ending h => completed_of_finished policy errorBackoff signal h⟩

/-- The loop has begun to read when it is told to stop. -/
def stoppedInRead : List Action :=
  let clock : Clock := ⟨1, ⟨⟨2024, 5, 1⟩, 0, 0⟩⟩
  [.advance .loop clock .due, .advance .loop clock .due, .signal true]

/-- The read gives an order, which is processed while the loop waits for it. -/
def lastOrder : List Action :=
  let clock : Clock := ⟨2, ⟨⟨2024, 5, 1⟩, 0, 0⟩⟩
  [.advance .loop clock (.message ⟨0, Intake.smallOrder⟩), .signal true,
    .advance .loop clock .due, .dropSender, .advance (.dispatch 0) clock .due,
    .advance (.dispatch 0) clock (.processed none),
    .advance (.dispatch 0) clock (.committed none), .advance .loop clock .due]

theorem stoppedInRead_stops :
    ((new {} 100 false).run stoppedInRead).pipeline.stopRequested = true ∧
      ((new {} 100 false).run stoppedInRead).Stands lastOrder ∧
      ((new {} 100 false).run stoppedInRead).Stops lastOrder ∧
      ((new {} 100 false).run (stoppedInRead ++ lastOrder)).pipeline.loop = .finished .stopped ∧
      (new {} 100 false).Completed (stoppedInRead ++ lastOrder) := by
  have requested : ((new {} 100 false).run stoppedInRead).pipeline.stopRequested = true := by
    decide +kernel
  have stands : ((new {} 100 false).run stoppedInRead).Stands lastOrder :=
    stands_of_notMem (by simp [lastOrder])
  have finished : ((new {} 100 false).run (stoppedInRead ++ lastOrder)).pipeline.loop =
      .finished .stopped := by
    decide +kernel
  obtain ⟨hstops, hcompleted⟩ := run_stops {} 100 false stoppedInRead lastOrder requested stands
  exact ⟨requested, stands, hstops, finished, hcompleted .stopped finished⟩

/-! ### A request that is taken back -/

/-- The request is taken back before the read gives an order, and another order comes after it. -/
def takenBack : List Action :=
  let clock : Clock := ⟨2, ⟨⟨2024, 5, 1⟩, 0, 0⟩⟩
  [.signal false, .advance .loop clock (.message ⟨0, Intake.smallOrder⟩),
    .advance .loop clock .due, .advance .loop clock .due,
    .advance .loop clock (.message ⟨1, Intake.smallOrder⟩)]

/-- A request that the loop does not come to look at does not bound what it obtains. -/
theorem not_prompt_of_taken_back :
    ¬∀ before later : List Action,
      ((new {} 100 false).run before).pipeline.stopRequested = true →
      ((new {} 100 false).run (before ++ later)).pipeline.obtained.length ≤
        ((new {} 100 false).run before).pipeline.obtained.length + 1 := by
  intro h
  exact absurd (h stoppedInRead takenBack (by decide +kernel)) (by decide +kernel)

end Operation

end OrderDesk
