import OrderDesk.Proofs.Ingest.Acknowledgement
import OrderDesk.Proofs.Ingest.Intake

/-!
# The end of a closed transport

A call that takes a message returns that the transport is closed in two cases: it heard so while it
read, and then nothing waits for another attempt; or the transport said so when it was to
acknowledge a message that is no order (`Consume.resume_closed`). A pipeline whose transport does
not give that answer to its loop ends on a closed transport with nothing left to do
(`Operation.run_closed`). Where it does, messages that wait for another attempt are left behind
(`Operation.retry_left_behind`).
-/

namespace OrderDesk

/-- It ends, or has ended, because the transport is closed. -/
def Loop.endsClosed : Loop → Bool
  | .draining .closed | .finished .closed => true
  | _ => false

namespace Pipeline

variable {p p' : Pipeline} {clock : Clock} {a : Answer}

/-! ## Every step -/

/-- If the loop ends because the transport is closed, nothing is left to do. -/
structure Closes (p : Pipeline) : Prop where
  draining : p.loop ≠ .draining .closed
  finished : p.loop = .finished .closed → p.source.backlog.messages = [] ∧ p.dispatches = []

theorem closes_of_endsClosed (h : p.loop.endsClosed = false) : p.Closes := by
  constructor
  · intro he
    rw [he] at h
    cases h
  · intro he
    rw [he] at h
    cases h

theorem closes_reject (p : Pipeline) (next : Source × Progress Settle Settled) :
    (p.reject next).Closes := by
  obtain ⟨source, q⟩ := next
  cases q <;> exact closes_of_endsClosed rfl

theorem closes_consumed {next : Source × Progress Consume Consumed}
    (h : next.2 = .returns (.failed (.transport .closed)) → next.1.backlog.messages = []) :
    (p.consumed clock next).Closes := by
  obtain ⟨source, q⟩ := next
  cases q with
  | waits call => exact closes_of_endsClosed rfl
  | returns r =>
    cases r with
    | message m =>
      simp only [consumed, receive]
      split
      · exact closes_of_endsClosed rfl
      · exact closes_reject _ _
    | nothing => exact closes_of_endsClosed rfl
    | failed e =>
      cases e with
      | transport e =>
        cases e with
        | closed =>
          simp only [consumed]
          split
          · rename_i hd
            exact ⟨Loop.noConfusion, fun _ => ⟨h rfl, List.isEmpty_iff.1 hd⟩⟩
          · exact closes_of_endsClosed rfl
        | _ => exact closes_of_endsClosed rfl
      | _ => exact closes_of_endsClosed rfl

theorem Closes.stepLoop (h : p.Closes) (ha : a ≠ .committed (some .closed))
    (hs : p.stepLoop clock a = some p') : p'.Closes := by
  unfold Pipeline.stepLoop at hs
  split at hs
  case h_1 =>
    split at hs <;> cases hs
    · unfold leave
      split <;> exact closes_of_endsClosed rfl
    · exact closes_of_endsClosed rfl
  case h_2 =>
    cases hs
    refine closes_consumed fun hr => ?_
    unfold Source.consume at hr
    split at hr <;> cases hr
  case h_3 call _ =>
    obtain ⟨⟨source, q⟩, hr, rfl⟩ := Option.map_eq_some_iff.1 hs
    refine closes_consumed fun hq => ?_
    obtain rfl : q = _ := hq
    exact ((Consume.resume_closed hr).resolve_right ha).2
  case h_4 =>
    obtain ⟨next, -, rfl⟩ := Option.map_eq_some_iff.1 hs
    exact closes_reject p next
  case h_5 | h_6 =>
    split at hs <;> cases hs
    exact closes_of_endsClosed rfl
  case h_7 ending hloop =>
    split at hs <;> cases hs
    cases ending with
    | stopped => exact closes_of_endsClosed rfl
    | closed => exact absurd hloop h.draining
  case h_8 => cases hs

theorem loop_settled (p : Pipeline) (id : Nat) (next : Source × Progress Settle Settled) :
    (p.settled id next).loop = p.loop := by
  obtain ⟨source, q⟩ := next
  cases q <;> rfl

/-- The loop stays where it is while a dispatch takes a step. -/
theorem loop_stepDispatch {d : Dispatch} (hs : p.stepDispatch clock d a = some p') :
    p'.loop = p.loop := by
  unfold stepDispatch at hs
  split at hs
  case h_1 =>
    cases hs
    rfl
  case h_2 error _ =>
    cases hs
    cases error <;> exact loop_settled ..
  case h_3 =>
    obtain ⟨next, -, rfl⟩ := Option.map_eq_some_iff.1 hs
    exact loop_settled p d.id next
  case h_4 => cases hs

theorem Closes.step (h : p.Closes) {t : Task}
    (ha : t = .loop → a ≠ .committed (some .closed)) (hs : p.step clock t a = some p') :
    p'.Closes := by
  cases t with
  | loop => exact h.stepLoop (ha rfl) hs
  | dispatch id =>
    obtain ⟨d, hd, hs⟩ := Option.bind_eq_some_iff.1 hs
    have hloop := loop_stepDispatch hs
    refine ⟨hloop ▸ h.draining, fun he => ?_⟩
    -- no dispatch is left when the loop has ended
    have hnone := (h.finished (hloop.symm.trans he)).2
    rw [dispatch?, hnone] at hd
    cases hd

end Pipeline

/-! ## Runs -/

namespace Operation

variable {x x' : Operation}

theorem closes_step {action : Action} (h : x.pipeline.Closes)
    (ha : ∀ clock, action ≠ .advance .loop clock (.committed (some .closed)))
    (hs : x.step action = some x') : x'.pipeline.Closes := by
  cases action with
  | signal value | dropSender =>
    cases hs
    exact ⟨h.draining, h.finished⟩
  | advance t clock a =>
    obtain ⟨pipeline, hp, rfl⟩ := Option.map_eq_some_iff.1 hs
    refine h.step (fun ht he => ?_) hp
    subst ht he
    exact ha clock rfl
  | cut t =>
    cases t with
    | loop =>
      cases hs
      exact Pipeline.closes_of_endsClosed rfl
    | dispatch id =>
      obtain ⟨d, hd, rfl⟩ := Option.map_eq_some_iff.1 hs
      refine ⟨h.draining, fun he => ?_⟩
      have hnone := (h.finished he).2
      rw [Pipeline.dispatch?, hnone] at hd
      cases hd

/-- **Closed only after the backlog**: a loop that has ended because the transport is closed has
left nothing to be tried again and no dispatch under way, unless the transport says that it is
closed when the loop has it acknowledge a message. -/
theorem run_closed (policy : RetryPolicy) (errorBackoff : Nat) (signal : Bool)
    (actions : List Action)
    (hcommit : ∀ clock, .advance .loop clock (.committed (some .closed)) ∉ actions)
    (h : ((new policy errorBackoff signal).run actions).pipeline.loop = .finished .closed) :
    ((new policy errorBackoff signal).run actions).pipeline.source.backlog.messages = [] ∧
      ((new policy errorBackoff signal).run actions).pipeline.dispatches = [] := by
  have hnew : (new policy errorBackoff signal).pipeline.Closes :=
    Pipeline.closes_of_endsClosed rfl
  have hrun : ((new policy errorBackoff signal).run actions).pipeline.Closes := by
    refine runSteps_keeps_of_mem (P := fun x : Operation => x.pipeline.Closes) ?_ hnew
    intro x x' action hmem hx hs
    exact closes_step hx (fun clock he => hcommit clock (he ▸ hmem)) hs
  exact hrun.finished h

/-! ### A message that is left behind -/

/-- An order fails and is to be tried again at 6; the next message is no order, and the transport
says that it is closed when it is to acknowledge that. -/
def closedOnCommit : List Action :=
  let clock : Clock := ⟨1, ⟨⟨2024, 5, 1⟩, 0, 0⟩⟩
  [.advance .loop clock .due, .advance .loop clock .due,
    .advance .loop clock (.message ⟨0, Intake.smallOrder⟩),
    .advance (.dispatch 0) clock .due,
    .advance (.dispatch 0) clock (.processed (some (.storage "down"))),
    .advance .loop clock .due, .advance .loop clock .due,
    .advance .loop clock (.message ⟨1, []⟩), .advance .loop clock (.sent none),
    .advance .loop clock (.committed (some .closed))]

theorem retry_left_behind :
    ((new { backoff := 5 } 100 false).run closedOnCommit).pipeline.loop = .finished .closed ∧
      ((new { backoff := 5 } 100 false).run closedOnCommit).pipeline.source.backlog.messages ≠
        [] := by
  decide +kernel

end Operation

end OrderDesk
