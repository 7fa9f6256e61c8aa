import OrderDesk.Proofs.Ingest.Intake

/-!
# What a step does to the messages

One step of one task concerns one message at most: it refuses it, hands it out, rejects it, calls
the processor or hears its answer, or it only goes on with a settlement. `Pipeline.Move` lists these
kinds with all they do to the source and to the messages on their way through the processor
(`Pipeline.active`, `Pipeline.processing`), and every step is of one of them (`Pipeline.move_step`,
`Intake.move_step`). What the journal tells about a message is kept along the kinds, without the
tasks.
-/

namespace OrderDesk

/-- It is neither the beginning nor the end of an attempt, nor a letter. -/
def Event.isQuiet : Event → Bool
  | .sent .. | .committing _ | .committed .. => true
  | _ => false

/-! ## The source along a step -/

namespace Source

/-- Nothing but a settlement went on. -/
def Rests (s s' : Source) : Prop :=
  ∃ events : Journal, (∀ e ∈ events, e.isQuiet) ∧
    s' = { s with journal := events ++ s.journal }

theorem Rests.refl (s : Source) : s.Rests s := ⟨[], fun _ h => (nomatch h), rfl⟩

/-- A message is handed out for an attempt: it has come from the transport, or it was due again. -/
inductive Takes (clock : Clock) (s : Source) : InFlight Order → Source → Prop
  | fresh (m : RawMessage) (o : Order) (payload : Order.ofBytes m.payload = .ok o) :
      Takes clock s (.fresh m o)
        ((s.record (.read m)).record (.offered (.fresh m o) clock.now))
  | again (q : InFlight Order) (backlog : Backlog Order)
      (due : s.backlog.popEligible clock.now = some (q, backlog)) :
      Takes clock s q (({ s with backlog }).record (.offered q clock.now))

/-- What becomes of a message whose attempt has failed. -/
theorem onFail_cases (s : Source) (clock : Clock) (q : InFlight Order) (cause : String) :
    (s.policy.maxRetries < q.tries + 1 ∧ (s.onFail clock q true cause).1 =
      s.record (.sending (q.raw.letter clock.wall (q.tries + 1) .maxRetriesExceeded cause))) ∨
    (q.tries + 1 ≤ s.policy.maxRetries ∧ ∃ backlog,
      s.backlog.push clock.now (q.retry clock.now s.policy.backoff) = some backlog ∧
      (s.onFail clock q true cause).1 = ({ s with backlog }).record
        (.scheduled (q.retry clock.now s.policy.backoff) clock.now)) ∨
    (q.tries + 1 ≤ s.policy.maxRetries ∧
      s.backlog.push clock.now (q.retry clock.now s.policy.backoff) = none ∧
      (s.onFail clock q true cause).1 =
        s.record (.sending (q.raw.letter clock.wall (q.tries + 1) .retryOverflow cause))) := by
  simp only [onFail, Bool.not_true, Bool.false_eq_true, if_false]
  split
  · rename_i hmax
    exact .inl ⟨hmax, rfl⟩
  rename_i hmax
  refine .inr ?_
  split
  · rename_i backlog hpush
    exact .inl ⟨Nat.le_of_not_lt hmax, backlog, hpush, rfl⟩
  · rename_i hpush
    exact .inr ⟨Nat.le_of_not_lt hmax, hpush, rfl⟩

end Source

theorem Burial.rests_resume {s s' : Source} {a : Answer} {b : Burial}
    {p : Progress Burial (Option TransportError)} (h : b.resume s a = some (s', p)) :
    s.Rests s' := by
  cases b with
  | toSink l =>
    cases a <;> cases h
    rename_i e
    refine ⟨[.committing l.message, .sent l e], fun e he => ?_, rfl⟩
    rcases List.mem_cons.1 he with rfl | he
    · rfl
    · rw [List.eq_of_mem_singleton he]
      rfl
  | toCommit l =>
    cases a <;> cases h
    rename_i e
    refine ⟨[.committed l.message e], fun e he => ?_, rfl⟩
    rw [List.eq_of_mem_singleton he]
    rfl

theorem Settle.rests_resume {s s' : Source} {a : Answer} {call : Settle}
    {p : Progress Settle Settled} (h : call.resume s a = some (s', p)) : s.Rests s' := by
  cases call with
  | acknowledging m =>
    cases a <;> cases h
    rename_i e
    refine ⟨[.committed m e], fun e he => ?_, rfl⟩
    rw [List.eq_of_mem_singleton he]
    rfl
  | burying b =>
    obtain ⟨q, hb, -⟩ := Settle.resume_burying h
    exact Burial.rests_resume hb

theorem Settle.resume_processed (s : Source) (call : Settle) (error : Option OrderError) :
    call.resume s (.processed error) = none := by
  cases call with
  | acknowledging m => rfl
  | burying b => cases b <;> rfl

/-- The message that the processor is working on, if it is. -/
def Dispatch.processing (d : Dispatch) : List (InFlight Order) :=
  match d.stage with
  | .processing => [d.message]
  | _ => []

/-- What a dispatch hears from the processor: its message and the answer about it. -/
def Dispatch.hears (d : Dispatch) : Answer → Option (InFlight Order × Option OrderError)
  | .processed error => some (d.message, error)
  | _ => none

namespace Pipeline

variable {p p' p₀ : Pipeline} {d : Dispatch} {clock : Clock} {a : Answer} {q : InFlight Order}

/-! ## Messages on their way through the processor -/

/-- The messages of the dispatches that have not heard from the processor. -/
def active (p : Pipeline) : List (InFlight Order) :=
  (p.dispatches.flatMap Dispatch.custody).filterMap Custody.held?

/-- A loop holds no message between two steps. -/
theorem held?_custody (loop : Loop) : loop.custody.filterMap Custody.held? = [] := by
  cases loop with
  | consuming call => cases call <;> rfl
  | _ => rfl

theorem held?_custody_eq (p : Pipeline) : p.custody.filterMap Custody.held? = p.active := by
  rw [custody, List.filterMap_append, held?_custody, List.nil_append, active]

/-- The messages that the processor is working on. -/
def processing (p : Pipeline) : List (InFlight Order) := p.dispatches.flatMap Dispatch.processing

theorem processing_reap (p : Pipeline) : p.reap.processing = p.processing :=
  flatMap_reap Dispatch.processing (fun d hd => by rw [Dispatch.processing, hd]) p.dispatches

theorem processing_spawn (p : Pipeline) (m : InFlight Order) :
    (p.spawn m).processing = p.processing := by
  rw [processing, spawn, List.flatMap_append]
  exact List.append_nil _

theorem active_reap (p : Pipeline) : p.reap.active = p.active := by
  rw [active, reap, custody_reap, active]

theorem active_spawn (p : Pipeline) (m : InFlight Order) :
    (p.spawn m).active = p.active ++ [m] := by
  rw [active, spawn, List.flatMap_append, List.filterMap_append, active]
  rfl

/-- A dispatch that comes to another stage keeps its message or lets go of it. -/
theorem exists_active_enter (h : Numbered p.dispatches p.started) (hd : d ∈ p.dispatches) :
    ∃ rest, p.active.Perm (d.custody.filterMap Custody.held? ++ rest) ∧ ∀ stage,
      (p.enter d.id stage).active.Perm
        ({ d with stage }.custody.filterMap Custody.held? ++ rest) := by
  obtain ⟨rest, hp, henter⟩ := exists_flatMap_enter Dispatch.custody h hd
  refine ⟨rest.filterMap Custody.held?, ?_, fun stage => ?_⟩
  · rw [← List.filterMap_append]
    exact hp.filterMap _
  · rw [← List.filterMap_append]
    exact (henter stage).filterMap _

/-! ## The kinds of steps -/

/-- What the step of a task hears from the processor. -/
def hears (p : Pipeline) (t : Task) (a : Answer) : Option (InFlight Order × Option OrderError) :=
  match t with
  | .loop => none
  | .dispatch id => (p.dispatch? id).bind fun d => d.hears a

/-- What a step does to the source and to the messages on their way through the processor, and what
it hears from the processor. -/
inductive Move (clock : Clock) (p p' : Pipeline) :
    Option (InFlight Order × Option OrderError) → Prop where
  /-- No message begins or ends an attempt. -/
  | rest (source : p.source.Rests p'.source) (active : p'.active.Perm p.active)
      (processing : p'.processing.Perm p.processing) : Move clock p p' none
  /-- A payload is no order. -/
  | refuse (m : RawMessage) (e : Json.Error) (payload : Order.ofBytes m.payload = .error e)
      (source : p'.source = (p.source.record (.read m)).record
        (.sending (m.letter clock.wall 0 .undecodable e.message)))
      (active : p'.active.Perm p.active) (processing : p'.processing.Perm p.processing) :
      Move clock p p' none
  /-- A valid order is given to a dispatch. -/
  | accept (q : InFlight Order) (taken : p.source.Takes clock q p'.source)
      (valid : q.value.validate clock.wall = .ok ())
      (active : p'.active.Perm (q :: p.active))
      (processing : p'.processing.Perm p.processing) : Move clock p p' none
  /-- An order breaks a rule. -/
  | reject (q : InFlight Order) (s : Source) (taken : p.source.Takes clock q s)
      (e : ValidationError) (invalid : q.value.validate clock.wall = .error e)
      (source : p'.source =
        s.record (.sending (q.raw.letter clock.wall q.tries .invalid e.text)))
      (active : p'.active.Perm p.active) (processing : p'.processing.Perm p.processing) :
      Move clock p p' none
  /-- The processor is given an order. -/
  | call (q : InFlight Order) (held : q ∈ p.active)
      (source : p'.source = p.source.record (.calling q)) (active : p'.active.Perm p.active)
      (processing : p'.processing.Perm (q :: p.processing)) : Move clock p p' none
  /-- An attempt has succeeded. -/
  | succeed (q : InFlight Order)
      (source : p'.source = (p.source.record (.answered q none)).record (.committing q.raw))
      (active : p.active.Perm (q :: p'.active))
      (processing : p.processing.Perm (q :: p'.processing)) : Move clock p p' (some (q, none))
  /-- An attempt has failed. -/
  | fail (q : InFlight Order) (e : OrderError)
      (source : p'.source =
        ((p.source.record (.answered q (some e))).onFail clock q true e.text).1)
      (active : p.active.Perm (q :: p'.active))
      (processing : p.processing.Perm (q :: p'.processing)) : Move clock p p' (some (q, some e))

/-! ### The loop -/

theorem source_reject (p : Pipeline) (next : Source × Progress Settle Settled) :
    (p.reject next).source = next.1 ∧ (p.reject next).dispatches = p.dispatches := by
  obtain ⟨source, q⟩ := next
  cases q <;> exact ⟨rfl, rfl⟩

/-- A message that was taken is given to a dispatch or rejected. -/
theorem move_receive (hd : p.dispatches = p₀.dispatches)
    (ht : p₀.source.Takes clock q p.source) : Move clock p₀ (p.receive clock q) none := by
  have hactive : p.active = p₀.active := by rw [active, hd, active]
  have hprocessing : p.processing = p₀.processing := by rw [processing, hd, processing]
  unfold receive
  dsimp only
  split
  · rename_i hvalid
    refine .accept q ht hvalid ?_ (.of_eq ?_)
    · rw [active_spawn, ← hactive]
      exact List.perm_append_singleton _ _
    · exact (processing_spawn _ q).trans hprocessing
  · rename_i e hinvalid
    obtain ⟨hsource, hdispatches⟩ := source_reject
      { p with stats := { p.stats with consumed := p.stats.consumed + 1
                                       invalid := p.stats.invalid + 1 } }
      (p.source.onFail clock q false e.text)
    refine .reject q p.source ht e hinvalid hsource (.of_eq ?_) (.of_eq ?_)
    · rw [active, hdispatches]
      exact hactive
    · rw [processing, hdispatches]
      exact hprocessing

/-- A call that has not returned a message leaves the dispatches as they are. -/
theorem source_consumed (p : Pipeline) (clock : Clock)
    {next : Source × Progress Consume Consumed} (h : ∀ m, next.2 ≠ .returns (.message m)) :
    (p.consumed clock next).source = next.1 ∧
      (p.consumed clock next).dispatches = p.dispatches := by
  obtain ⟨source, q⟩ := next
  cases q with
  | waits call => exact ⟨rfl, rfl⟩
  | returns r =>
    cases r with
    | message m => exact absurd rfl (h m)
    | nothing => exact ⟨rfl, rfl⟩
    | failed e =>
      cases e with
      | transport e =>
        cases e with
        | closed =>
          simp only [consumed]
          split <;> exact ⟨rfl, rfl⟩
        | _ => exact ⟨rfl, rfl⟩
      | _ => exact ⟨rfl, rfl⟩

theorem move_rests {next : Source × Progress Consume Consumed} (hs : p.source.Rests next.1)
    (h : ∀ m, next.2 ≠ .returns (.message m)) : Move clock p (p.consumed clock next) none := by
  obtain ⟨hsource, hdispatches⟩ := p.source_consumed clock h
  refine .rest (hsource ▸ hs) (.of_eq ?_) (.of_eq ?_)
  · rw [active, hdispatches, active]
  · rw [processing, hdispatches, processing]

/-- A call that takes a message begins. -/
theorem move_consume (p : Pipeline) (clock : Clock) :
    Move clock p (p.consumed clock (p.source.consume clock.now)) none := by
  unfold Source.consume
  split
  · rename_i q backlog hdue
    exact move_receive rfl (.again q backlog hdue)
  · exact move_rests (.refl _) fun m h => nomatch h

/-- A call that takes a message goes on. -/
theorem move_resume {call : Consume} {next : Source × Progress Consume Consumed}
    (h : call.resume p.source clock a = some next) : Move clock p (p.consumed clock next) none := by
  cases call with
  | reading since =>
    cases a with
    | message m =>
      cases h
      unfold Consume.receive
      dsimp only
      split
      · rename_i o hpayload
        exact move_receive rfl (.fresh m o hpayload)
      · rename_i e hpayload
        exact .refuse m e hpayload rfl (.refl _) (.refl _)
    | nothing =>
      cases h
      exact move_rests (.refl _) fun m h => nomatch h
    | readFailed e =>
      cases e with
      | closed =>
        cases h
        refine move_rests (.refl _) fun m h => ?_
        unfold Consume.finish at h
        split at h <;> cases h
      | _ =>
        cases h
        exact move_rests (.refl _) fun m h => nomatch h
    | _ => cases h
  | resting till =>
    cases a <;> try cases h
    simp only [Consume.resume] at h
    split at h <;> cases h
    exact move_rests (.refl _) fun m h => nomatch h
  | refusing b error =>
    obtain ⟨q, hb, he⟩ := Consume.resume_refusing h
    refine move_rests (Burial.rests_resume hb) fun m hm => ?_
    rw [hm] at he
    cases q <;> cases he

theorem move_stepLoop (hs : p.stepLoop clock a = some p') : Move clock p p' none := by
  unfold Pipeline.stepLoop at hs
  split at hs
  case h_1 =>
    split at hs
    · cases hs
      unfold leave
      exact .rest (.refl _) (.refl _) (.refl _)
    · cases hs
      exact .rest (.refl _) (.of_eq p.active_reap) (.of_eq p.processing_reap)
  case h_2 =>
    cases hs
    exact p.move_consume clock
  case h_3 call _ =>
    obtain ⟨next, hr, rfl⟩ := Option.map_eq_some_iff.1 hs
    exact move_resume hr
  case h_4 call _ =>
    obtain ⟨next, hr, rfl⟩ := Option.map_eq_some_iff.1 hs
    obtain ⟨hsource, hdispatches⟩ := p.source_reject next
    refine .rest (hsource ▸ Settle.rests_resume hr) (.of_eq ?_) (.of_eq ?_)
    · rw [active, hdispatches, active]
    · rw [processing, hdispatches, processing]
  case h_5 =>
    split at hs <;> cases hs
    exact .rest (.refl _) (.of_eq p.active_reap) (.of_eq p.processing_reap)
  case h_6 till _ =>
    split at hs <;> cases hs
    exact .rest (.refl _) (.refl _) (.refl _)
  case h_7 ending _ =>
    split at hs <;> cases hs
    exact .rest (.refl _) (.of_eq p.active_reap) (.of_eq p.processing_reap)
  case h_8 => cases hs

/-! ### Dispatches -/

/-- A dispatch that settles its message no longer holds it. -/
theorem exists_active_settled (h : Numbered p.dispatches p.started) (hd : d ∈ p.dispatches)
    (stats : Stats) (next : Source × Progress Settle Settled) :
    ({ p with stats }.settled d.id next).source = next.1 ∧
      p.active.Perm (d.custody.filterMap Custody.held? ++
        ({ p with stats }.settled d.id next).active) ∧
      p.processing.Perm (d.processing ++ ({ p with stats }.settled d.id next).processing) := by
  obtain ⟨rest, hp, henter⟩ := exists_active_enter h hd
  obtain ⟨rest', hp', henter'⟩ := exists_flatMap_enter Dispatch.processing h hd
  obtain ⟨source, progress⟩ := next
  cases progress with
  | waits call =>
    exact ⟨rfl, hp.trans ((henter (.settling call)).symm.append_left _),
      hp'.trans ((henter' (.settling call)).symm.append_left _)⟩
  | returns r =>
    exact ⟨rfl, hp.trans ((henter .done).symm.append_left _),
      hp'.trans ((henter' .done).symm.append_left _)⟩

theorem move_stepDispatch (h : Numbered p.dispatches p.started) (hd : d ∈ p.dispatches)
    (hs : p.stepDispatch clock d a = some p') : Move clock p p' (d.hears a) := by
  unfold Pipeline.stepDispatch at hs
  split at hs
  case h_1 hstage =>
    cases hs
    obtain ⟨rest, hp, henter⟩ := exists_active_enter h hd
    obtain ⟨rest', hp', henter'⟩ := exists_flatMap_enter Dispatch.processing h hd
    rw [Dispatch.custody, hstage] at hp
    rw [Dispatch.processing, hstage] at hp'
    exact .call d.message (hp.mem_iff.2 List.mem_cons_self) rfl
      ((henter .processing).trans hp.symm)
      ((henter' .processing).trans (hp'.symm.cons d.message))
  case h_2 error hstage =>
    cases hs
    have hheld : d.custody = [.held d.message] := by rw [Dispatch.custody, hstage]
    have hprocessing : d.processing = [d.message] := by rw [Dispatch.processing, hstage]
    cases error with
    | none =>
      obtain ⟨hsource, hp, hp'⟩ := exists_active_settled h hd
        { p.stats with processed := p.stats.processed + 1 }
        (((p.source.record (.answered d.message none)).onSuccess d.message).1, .waits _)
      rw [hheld] at hp
      rw [hprocessing] at hp'
      exact .succeed d.message hsource hp hp'
    | some e =>
      obtain ⟨hsource, hp, hp'⟩ := exists_active_settled h hd
        { p.stats with failed := p.stats.failed + 1 }
        ((p.source.record (.answered d.message (some e))).onFail clock d.message true e.text)
      rw [hheld] at hp
      rw [hprocessing] at hp'
      exact .fail d.message e hsource hp hp'
  case h_3 a _ _ call hstage =>
    obtain ⟨next, hr, rfl⟩ := Option.map_eq_some_iff.1 hs
    obtain ⟨hsource, hp, hp'⟩ := exists_active_settled h hd p.stats next
    rw [Dispatch.custody, hstage] at hp
    rw [Dispatch.processing, hstage] at hp'
    have hquiet : d.hears a = none := by
      cases a with
      | processed error => rw [Settle.resume_processed] at hr; cases hr
      | _ => rfl
    rw [hquiet]
    exact .rest (hsource ▸ Settle.rests_resume hr) hp.symm hp'.symm
  case h_4 => cases hs

/-- Every step of every task is of one of the kinds. -/
theorem move_step (h : Numbered p.dispatches p.started) {t : Task}
    (hs : p.step clock t a = some p') : Move clock p p' (p.hears t a) := by
  cases t with
  | loop => exact move_stepLoop hs
  | dispatch id =>
    obtain ⟨d, hd, hs⟩ := Option.bind_eq_some_iff.1 hs
    rw [hears, hd]
    exact move_stepDispatch h (List.mem_of_find?_eq_some hd) hs

end Pipeline

/-! ## Steps of an intake -/

/-- The clock that a step goes by; those of publishers and of the signal go by none. -/
def Intake.Action.clock? : Intake.Action → Option Clock
  | .advance _ clock _ => some clock
  | _ => none

/-- What a step hears from the processor. -/
def Intake.hears (x : Intake) : Intake.Action → Option (InFlight Order × Option OrderError)
  | .advance t _ a => x.pipeline.hears t a
  | _ => none

theorem Intake.move_step {policy : RetryPolicy} {x x' : Intake} (h : x.Sound policy)
    {action : Intake.Action} (hs : x.step action = some x') :
    (∃ clock, action.clock? = some clock ∧
      x.pipeline.Move clock x'.pipeline (x.hears action)) ∨
      (action.clock? = none ∧ x.hears action = none ∧
        x'.pipeline.source = x.pipeline.source ∧
        x'.pipeline.dispatches = x.pipeline.dispatches) := by
  cases action with
  | publish s =>
    obtain ⟨inlet, -, rfl⟩ := Option.map_eq_some_iff.1 hs
    exact .inr ⟨rfl, rfl, rfl, rfl⟩
  | signal value | dropSender =>
    cases hs
    exact .inr ⟨rfl, rfl, rfl, rfl⟩
  | advance t clock a =>
    simp only [Intake.step] at hs
    split at hs
    · rename_i channel pipeline _ hp
      cases hs
      exact .inl ⟨clock, rfl, Pipeline.move_step h.numbered hp⟩
    · cases hs

end OrderDesk
