import OrderDesk.Proofs.Ingest.Moves

/-!
# What the counters of a pipeline add up to

The loop and the dispatches count attempts, each at the moment that it knows of, while letters and
acknowledgements are about messages. What connects them is the journal. The counters are views of it
(`Journal.stats`, `Pipeline.Tallied`), but that the loop counts an undecodable message only when it
has been acknowledged. Along the kinds of steps the journal balances with the messages on their way
through the processor (`Journal.Balanced`), and where each message is adds up the rest
(`Intake.run_balanced`).
-/

namespace OrderDesk

/-! ## Counting in the journal -/

/-- The counters after an event. -/
def Stats.count (t : Stats) : Event → Stats
  | .offered .. => { t with consumed := t.consumed + 1 }
  | .answered _ none => { t with processed := t.processed + 1 }
  | .answered _ (some _) => { t with failed := t.failed + 1 }
  | .sending l =>
    match l.reason with
    | .invalid => { t with invalid := t.invalid + 1 }
    | .undecodable => { t with decodeErrors := t.decodeErrors + 1 }
    | .maxRetriesExceeded | .retryOverflow => t
  | _ => t

namespace Journal

variable {j events : Journal}

/-- The counters as the journal has them. -/
def stats (j : Journal) : Stats := j.foldr (fun e t => t.count e) {}

/-- How many letters there are for a reason. -/
def lettersOf (reason : DeadLetterReason) (j : Journal) : Nat :=
  j.letters.countP (·.reason == reason)

theorem stats_of_isQuiet (h : ∀ e ∈ events, e.isQuiet) (j : Journal) :
    stats (events ++ j) = stats j := by
  induction events with
  | nil => rfl
  | cons e events ih =>
    have he := h e List.mem_cons_self
    have ih := ih fun e he => h e (List.mem_cons_of_mem _ he)
    cases e <;> first | exact ih | cases he

theorem letters_of_isQuiet (h : ∀ e ∈ events, e.isQuiet) (j : Journal) :
    letters (events ++ j) = letters j := by
  induction events with
  | nil => rfl
  | cons e events ih =>
    have he := h e List.mem_cons_self
    have ih := ih fun e he => h e (List.mem_cons_of_mem _ he)
    cases e <;> first | exact ih | cases he

theorem retries_of_isQuiet (h : ∀ e ∈ events, e.isQuiet) (j : Journal) :
    retries (events ++ j) = retries j := by
  rw [retries, retries, List.countP_append, Nat.add_eq_right, List.countP_eq_zero]
  intro e he
  have hquiet := h e he
  cases e <;> first | exact Bool.false_ne_true | cases hquiet

/-- Every letter is counted under its reason. -/
theorem length_letters (j : Journal) : j.letters.length =
    j.lettersOf .undecodable + j.lettersOf .invalid + j.lettersOf .maxRetriesExceeded +
      j.lettersOf .retryOverflow := by
  simp only [lettersOf]
  induction j.letters with
  | nil => rfl
  | cons l ls ih =>
    simp only [List.countP_cons, List.length_cons, ih]
    cases l.reason <;> simp only [BEq.rfl, if_true, beq_iff_eq, reduceCtorEq, if_false] <;> omega

theorem stats_eq (j : Journal) : j.stats.invalid = j.lettersOf .invalid ∧
    j.stats.decodeErrors = j.lettersOf .undecodable ∧ j.stats.processed = j.successes.length := by
  induction j with
  | nil => exact ⟨rfl, rfl, rfl⟩
  | cons e j ih =>
    obtain ⟨hinvalid, hdecode, hprocessed⟩ := ih
    change ((stats j).count e).invalid = _ ∧ ((stats j).count e).decodeErrors = _ ∧
      ((stats j).count e).processed = _
    cases e with
    | sending l =>
      change _ = (l :: letters j).countP _ ∧ _ = (l :: letters j).countP _ ∧
        _ = (successes j).length
      simp only [Stats.count, List.countP_cons]
      rw [lettersOf] at hinvalid hdecode
      cases l.reason <;> simp [hinvalid, hdecode, hprocessed]
    | answered q error =>
      cases error with
      | none => exact ⟨hinvalid, hdecode, congrArg (· + 1) hprocessed⟩
      | some e => exact ⟨hinvalid, hdecode, hprocessed⟩
    | _ => exact ⟨hinvalid, hdecode, hprocessed⟩

end Journal

/-! ## The counters of the tasks -/

/-- An undecodable message has a letter, and the loop has not counted it. -/
def Loop.uncounted : Loop → Nat
  | .consuming (.refusing ..) => 1
  | _ => 0

/-- The counters with so many more undecodable messages. -/
def Stats.ahead (t : Stats) (n : Nat) : Stats := { t with decodeErrors := t.decodeErrors + n }

/-- The counters with what the loop counts when it hears of a call that takes a message. -/
def Stats.due (t : Stats) : Progress Consume Consumed → Stats
  | .waits call => t.ahead (Loop.consuming call).uncounted
  | .returns (.message _) => { t with consumed := t.consumed + 1 }
  | .returns (.failed (.decode ..)) => t.ahead 1
  | .returns _ => t

theorem Source.stats_consume (s : Source) (now : Time) :
    (s.consume now).1.journal.stats = s.journal.stats.due (s.consume now).2 := by
  unfold Source.consume
  split <;> rfl

theorem Consume.stats_resume {s s' : Source} {clock : Clock} {a : Answer} {call : Consume}
    {q : Progress Consume Consumed} {c c' : Channel} {t : Stats}
    (h : s.journal.stats = t.ahead (Loop.consuming call).uncounted)
    (ha : c.answerConsume call a = some c') (hs : call.resume s clock a = some (s', q)) :
    s'.journal.stats = t.due q := by
  cases call with
  | reading since =>
    cases a with
    | message m =>
      obtain ⟨rfl, rfl⟩ := Prod.mk.inj (Option.some.inj hs)
      split
      · exact congrArg (fun t : Stats => { t with consumed := t.consumed + 1 }) h
      · exact congrArg (fun t : Stats => { t with decodeErrors := t.decodeErrors + 1 }) h
    | nothing => cases hs; exact h
    | readFailed e =>
      cases e with
      | closed =>
        cases hs
        unfold Consume.finish
        split <;> exact h
      | _ => cases hs; exact h
    | _ => cases hs
  | resting till =>
    cases a <;> try cases hs
    simp only [Consume.resume] at hs
    split at hs <;> cases hs
    exact h
  | refusing b error =>
    cases b with
    | toSink l =>
      cases a <;> cases hs
      exact h
    | toCommit l =>
      -- the channel acknowledges whatever it is asked to
      cases a with
      | committed e =>
        cases e with
        | none => cases hs; exact h
        | some e => cases ha
      | _ => cases hs

theorem Source.stats_onFail (s : Source) (clock : Clock) (q : InFlight Order) (cause : String) :
    (s.onFail clock q true cause).1.journal.stats = s.journal.stats := by
  rcases s.onFail_cases clock q cause with ⟨-, he⟩ | ⟨-, backlog, -, he⟩ | ⟨-, -, he⟩ <;>
    (rw [he]; rfl)

theorem Source.Rests.stats {s s' : Source} (h : s.Rests s') :
    s'.journal.stats = s.journal.stats := by
  obtain ⟨events, hquiet, rfl⟩ := h
  exact Journal.stats_of_isQuiet hquiet s.journal

namespace Pipeline

variable {p p' : Pipeline} {d : Dispatch} {clock : Clock} {a : Answer} {c c' : Channel}

/-- The counters of the tasks are those of the journal. -/
def Tallied (p : Pipeline) : Prop :=
  p.source.journal.stats = p.stats.ahead p.loop.uncounted

theorem tallied_reject {next : Source × Progress Settle Settled}
    (h : next.1.journal.stats = p.stats) : (p.reject next).Tallied := by
  obtain ⟨source, q⟩ := next
  cases q <;> exact h

theorem tallied_receive {m : InFlight Order}
    (h : p.source.journal.stats = { p.stats with consumed := p.stats.consumed + 1 }) :
    (p.receive clock m).Tallied := by
  unfold receive
  dsimp only
  split
  · exact h
  · exact tallied_reject (congrArg (fun t : Stats => { t with invalid := t.invalid + 1 }) h)

theorem tallied_consumed {next : Source × Progress Consume Consumed}
    (h : next.1.journal.stats = p.stats.due next.2) : (p.consumed clock next).Tallied := by
  obtain ⟨source, q⟩ := next
  cases q with
  | waits call => exact h
  | returns r =>
    cases r with
    | message m => exact tallied_receive h
    | nothing => exact h
    | failed e =>
      cases e with
      | transport e =>
        cases e with
        | closed =>
          simp only [consumed]
          split <;> exact h
        | _ => exact h
      | _ => exact h

theorem Tallied.stepLoop (h : p.Tallied) (ha : p.loop.answer c a = some c')
    (hs : p.stepLoop clock a = some p') : p'.Tallied := by
  rw [Tallied] at h
  unfold Pipeline.stepLoop at hs
  split at hs
  case h_1 hloop =>
    rw [hloop] at h
    split at hs
    · cases hs
      unfold leave
      split <;> exact h
    · cases hs
      exact h
  case h_2 hloop =>
    rw [hloop] at h
    cases hs
    refine tallied_consumed ((p.source.stats_consume clock.now).trans ?_)
    rw [h]
    rfl
  case h_3 call hloop =>
    rw [hloop] at h ha
    obtain ⟨⟨source, q⟩, hr, rfl⟩ := Option.map_eq_some_iff.1 hs
    exact tallied_consumed (Consume.stats_resume h ha hr)
  case h_4 call hloop =>
    rw [hloop] at h
    obtain ⟨⟨source, q⟩, hr, rfl⟩ := Option.map_eq_some_iff.1 hs
    exact tallied_reject ((Settle.rests_resume hr).stats.trans h)
  case h_5 hloop | h_6 hloop | h_7 hloop =>
    rw [hloop] at h
    split at hs <;> cases hs
    exact h
  case h_8 => cases hs

theorem tallied_settled {id : Nat} {stats : Stats} {next : Source × Progress Settle Settled}
    (h : next.1.journal.stats = stats.ahead p.loop.uncounted) :
    ({ p with stats }.settled id next).Tallied := by
  obtain ⟨source, q⟩ := next
  cases q <;> exact h

theorem Tallied.stepDispatch (h : p.Tallied) (hs : p.stepDispatch clock d a = some p') :
    p'.Tallied := by
  rw [Tallied] at h
  unfold Pipeline.stepDispatch at hs
  split at hs
  case h_1 =>
    cases hs
    exact h
  case h_2 error _ =>
    cases hs
    cases error with
    | none =>
      exact tallied_settled (congrArg (fun t : Stats => { t with processed := t.processed + 1 }) h)
    | some e =>
      refine tallied_settled ((Source.stats_onFail _ clock d.message e.text).trans ?_)
      exact congrArg (fun t : Stats => { t with failed := t.failed + 1 }) h
  case h_3 =>
    obtain ⟨⟨source, q⟩, hr, rfl⟩ := Option.map_eq_some_iff.1 hs
    exact tallied_settled ((Settle.rests_resume hr).stats.trans h)
  case h_4 => cases hs

theorem Tallied.step (h : p.Tallied) {t : Task} (ha : p.answer c a t = some c')
    (hs : p.step clock t a = some p') : p'.Tallied := by
  cases t with
  | loop => exact h.stepLoop ha hs
  | dispatch id =>
    obtain ⟨d, -, hs⟩ := Option.bind_eq_some_iff.1 hs
    exact h.stepDispatch hs

end Pipeline

/-! ## The balance of the journal -/

/-- The message of a failed attempt is put off or dead-lettered. -/
def Event.followsFailure : Event → Bool
  | .scheduled .. => true
  | .sending l => l.reason == .maxRetriesExceeded || l.reason == .retryOverflow
  | _ => false

namespace Journal

variable {j events : Journal} {n : Nat} {q : InFlight Order} {l : DeadLetter}

/-- Every message that was handed out was invalid, has been answered, or is one of `working` that
are on their way through the processor. A failed one was put off or dead-lettered. -/
structure Balanced (j : Journal) (working : Nat) : Prop where
  offers : j.stats.consumed = j.stats.invalid + j.stats.processed + j.stats.failed + working
  failures : j.stats.failed =
    j.retries + j.lettersOf .maxRetriesExceeded + j.lettersOf .retryOverflow

theorem stats_cons (e : Event) (j : Journal) : stats (e :: j) = (stats j).count e := rfl

theorem retries_cons (e : Event) (j : Journal) : retries (e :: j) =
    retries j + if (match e with | .scheduled .. => true | _ => false) then 1 else 0 :=
  List.countP_cons

theorem lettersOf_sending (reason : DeadLetterReason) (l : DeadLetter) (j : Journal) :
    lettersOf reason (.sending l :: j) =
      lettersOf reason j + if l.reason == reason then 1 else 0 :=
  List.countP_cons

/-- What follows a failure is one attempt more or one letter more. -/
theorem counts_of_followsFailure {x : Event} (h : x.followsFailure) (j : Journal) :
    stats (x :: j) = stats j ∧
      retries (x :: j) + lettersOf .maxRetriesExceeded (x :: j) +
        lettersOf .retryOverflow (x :: j) =
      retries j + lettersOf .maxRetriesExceeded j + lettersOf .retryOverflow j + 1 := by
  cases x with
  | scheduled q now =>
    have hletters : ∀ reason, lettersOf reason (.scheduled q now :: j) = lettersOf reason j :=
      fun _ => rfl
    refine ⟨rfl, ?_⟩
    simp only [retries_cons, hletters, if_true]
    omega
  | sending l =>
    rw [stats_cons, Stats.count, retries_cons, lettersOf_sending, lettersOf_sending]
    simp only [Event.followsFailure] at h
    cases hl : l.reason with
    | maxRetriesExceeded | retryOverflow =>
      refine ⟨rfl, ?_⟩
      simp only [Bool.false_eq_true, beq_iff_eq, reduceCtorEq, BEq.rfl, if_true, if_false]
      omega
    | _ =>
      rw [hl] at h
      cases h
  | _ => cases h

namespace Balanced

theorem append (h : j.Balanced n) (hquiet : ∀ e ∈ events, e.isQuiet) :
    Balanced (events ++ j) n where
  offers := by
    rw [stats_of_isQuiet hquiet]
    exact h.offers
  failures := by
    rw [stats_of_isQuiet hquiet, retries_of_isQuiet hquiet, lettersOf, lettersOf,
      letters_of_isQuiet hquiet]
    exact h.failures

theorem offered (h : j.Balanced n) (q : InFlight Order) (now : Time) :
    Balanced (.offered q now :: j) (n + 1) where
  offers := congrArg (· + 1) h.offers
  failures := by
    rw [retries_cons]
    exact h.failures

theorem read (h : j.Balanced n) (m : RawMessage) : Balanced (.read m :: j) n where
  offers := h.offers
  failures := by
    rw [retries_cons]
    exact h.failures

theorem calling (h : j.Balanced n) (q : InFlight Order) : Balanced (.calling q :: j) n where
  offers := h.offers
  failures := by
    rw [retries_cons]
    exact h.failures

theorem undecodable (h : j.Balanced n) (hl : l.reason = .undecodable) :
    Balanced (.sending l :: j) n := by
  obtain ⟨hc, hf⟩ := h
  constructor <;> simpa [stats_cons, Stats.count, retries_cons, lettersOf_sending, hl]

theorem invalid (h : j.Balanced (n + 1)) (hl : l.reason = .invalid) :
    Balanced (.sending l :: j) n := by
  obtain ⟨hc, hf⟩ := h
  constructor
  · simp only [stats_cons, Stats.count, hl]
    omega
  · simpa [stats_cons, Stats.count, retries_cons, lettersOf_sending, hl]

theorem succeeded (h : j.Balanced (n + 1)) (q : InFlight Order) :
    Balanced (.answered q none :: j) n where
  offers := by
    have hc := h.offers
    simp only [stats_cons, Stats.count]
    omega
  failures := by
    rw [retries_cons]
    exact h.failures

theorem failed (h : j.Balanced (n + 1)) (q : InFlight Order) (e : OrderError) {x : Event}
    (hx : x.followsFailure) : Balanced (x :: .answered q (some e) :: j) n := by
  obtain ⟨hstats, hcount⟩ := counts_of_followsFailure hx (.answered q (some e) :: j)
  have hretries : retries (.answered q (some e) :: j) = retries j := retries_cons _ j
  have hletters : ∀ reason, lettersOf reason (.answered q (some e) :: j) = lettersOf reason j :=
    fun _ => rfl
  rw [hretries, hletters, hletters] at hcount
  obtain ⟨hoffers, hfailures⟩ := h
  constructor
  · rw [hstats, stats_cons]
    simp only [Stats.count]
    omega
  · rw [hstats, stats_cons, hcount]
    simp only [Stats.count]
    omega

end Balanced

end Journal

theorem Journal.Balanced.takes {s s' : Source} {clock : Clock} {q : InFlight Order} {n : Nat}
    (h : s.journal.Balanced n) (ht : s.Takes clock q s') : s'.journal.Balanced (n + 1) := by
  cases ht with
  | fresh m o _ => exact (h.read m).offered _ _
  | again q backlog _ => exact h.offered q _

theorem Journal.Balanced.fails {s : Source} {n : Nat} (h : s.journal.Balanced (n + 1))
    (clock : Clock) (q : InFlight Order) (e : OrderError) :
    ((s.record (.answered q (some e))).onFail clock q true e.text).1.journal.Balanced n := by
  rcases Source.onFail_cases (s.record (.answered q (some e))) clock q e.text with
    ⟨-, he⟩ | ⟨-, backlog, -, he⟩ | ⟨-, -, he⟩ <;>
  · rw [he]
    exact h.failed q e rfl

namespace Pipeline

variable {p p' : Pipeline} {clock : Clock}

/-- What a step does to the messages keeps the balance. -/
theorem Move.balanced {heard : Option (InFlight Order × Option OrderError)}
    (hm : p.Move clock p' heard) (h : p.source.journal.Balanced p.active.length) :
    p'.source.journal.Balanced p'.active.length := by
  cases hm with
  | rest source active _ =>
    obtain ⟨events, hquiet, hs⟩ := source
    rw [active.length_eq, hs]
    exact h.append hquiet
  | refuse m e _ source active _ =>
    rw [active.length_eq, source]
    exact (h.read m).undecodable rfl
  | accept q taken _ active _ =>
    rw [active.length_eq]
    exact h.takes taken
  | reject q s taken e _ source active _ =>
    rw [active.length_eq, source]
    exact (h.takes taken).invalid rfl
  | call q _ source active _ =>
    rw [active.length_eq, source]
    exact h.calling q
  | succeed q source active _ =>
    rw [active.length_eq] at h
    rw [source]
    have hquiet : ∀ e ∈ ([.committing q.raw] : Journal), e.isQuiet := by
      intro e he
      rw [List.mem_singleton.1 he]
      rfl
    exact (h.succeeded q).append hquiet
  | fail q e source active _ =>
    rw [active.length_eq] at h
    rw [source]
    exact h.fails clock q e

end Pipeline

/-! ## Runs -/

/-- The processor has not answered about its order. -/
def Dispatch.isUnanswered (d : Dispatch) : Bool :=
  match d.stage with
  | .queued | .processing => true
  | .settling _ | .done => false

theorem Pipeline.length_active (p : Pipeline) :
    p.active.length = p.dispatches.countP Dispatch.isUnanswered := by
  rw [active]
  induction p.dispatches with
  | nil => rfl
  | cons d ds ih =>
    rw [List.flatMap_cons, List.filterMap_append, List.length_append, ih, List.countP_cons,
      Dispatch.custody, Dispatch.isUnanswered, Nat.add_comm]
    cases d.stage <;> rfl

namespace Intake

variable {policy : RetryPolicy} {x x' : Intake} {ending : Ending}

/-- The messages are in their places, and the counters and the journal agree. -/
structure Booked (policy : RetryPolicy) (x : Intake) : Prop where
  sound : x.Sound policy
  tallied : x.pipeline.Tallied
  balanced : x.pipeline.source.journal.Balanced x.pipeline.active.length

theorem booked_new (policy : RetryPolicy) (errorBackoff capacity pollWindow : Nat)
    (signal : Bool) : (new policy errorBackoff capacity pollWindow signal).Booked policy :=
  ⟨sound_new policy errorBackoff capacity pollWindow signal, rfl, rfl, rfl⟩

theorem Booked.step (h : x.Booked policy) {action : Action} (hs : x.step action = some x') :
    x'.Booked policy := by
  have hsound := h.sound.step hs
  cases action with
  | publish s =>
    obtain ⟨inlet, -, rfl⟩ := Option.map_eq_some_iff.1 hs
    exact ⟨hsound, h.tallied, h.balanced⟩
  | signal value | dropSender =>
    cases hs
    exact ⟨hsound, h.tallied, h.balanced⟩
  | advance t clock a =>
    simp only [Intake.step] at hs
    split at hs
    · rename_i channel pipeline ha hp
      cases hs
      exact ⟨hsound, h.tallied.step ha hp,
        (Pipeline.move_step h.sound.numbered hp).balanced h.balanced⟩
    · cases hs

theorem Booked.run (h : x.Booked policy) (actions : List Action) :
    (x.run actions).Booked policy :=
  runSteps_keeps (fun h hs => h.step hs) h actions

/-- How the counters add up when the loop has ended after these dealings with its surroundings. -/
structure Balanced (x : Intake) (dealings : Journal) : Prop where
  /-- What the journal tells of the processor, the sink and the transport is what went on. -/
  faithful : x.pipeline.source.journal.dealings = dealings
  /-- A failed attempt has led to another one or to a letter. -/
  failed : x.pipeline.stats.failed = x.pipeline.source.journal.retries +
    x.pipeline.source.journal.lettersOf .maxRetriesExceeded +
    x.pipeline.source.journal.lettersOf .retryOverflow
  invalid : x.pipeline.stats.invalid = x.pipeline.source.journal.lettersOf .invalid
  decodeErrors : x.pipeline.stats.decodeErrors =
    x.pipeline.source.journal.lettersOf .undecodable
  /-- A message that was read was dead-lettered, was processed or is in the backlog. -/
  reads : x.pipeline.source.journal.reads.length =
    x.pipeline.stats.decodeErrors + x.pipeline.stats.invalid + x.pipeline.stats.processed +
      x.pipeline.source.journal.lettersOf .maxRetriesExceeded +
      x.pipeline.source.journal.lettersOf .retryOverflow + x.pipeline.source.backlog.size

/-- Where the messages are when the loop has ended. -/
theorem Sound.length_reads (h : x.Sound policy) (hloop : x.pipeline.loop = .finished ending) :
    x.pipeline.source.journal.reads.length =
      x.pipeline.source.journal.letters.length + x.pipeline.source.journal.successes.length +
        x.pipeline.source.backlog.size := by
  have hends := h.ends
  rw [hloop] at hends
  have hserved : Served _ _ _ _ _ := h.attended
  rw [Pipeline.custody, hloop, hends.1] at hserved
  have hreads := hserved.ledger.reads.length_eq
  have hdepartures := hserved.ledger.departures.length_eq
  have hsize : x.pipeline.source.backlog.messages.length = x.pipeline.source.backlog.size :=
    List.length_map _
  simp only [Loop.custody, List.flatMap_nil, List.append_nil, List.filter_nil, List.map_nil,
    List.nil_append, List.length_append, List.length_map] at hreads hdepartures
  omega

theorem Booked.consumed (h : x.Booked policy) : x.pipeline.stats.consumed =
    x.pipeline.stats.invalid + x.pipeline.stats.processed + x.pipeline.stats.failed +
      x.pipeline.dispatches.countP Dispatch.isUnanswered := by
  have hoffers := h.balanced.offers
  rw [h.tallied, Pipeline.length_active] at hoffers
  exact hoffers

theorem Booked.balanced_of_finished (h : x.Booked policy)
    (hloop : x.pipeline.loop = .finished ending) :
    x.Balanced x.pipeline.source.journal.dealings := by
  have hstats : x.pipeline.source.journal.stats = x.pipeline.stats := by
    rw [h.tallied, hloop]
    rfl
  have hfailures := h.balanced.failures
  obtain ⟨hinvalid, hdecode, hprocessed⟩ := x.pipeline.source.journal.stats_eq
  have hreads := h.sound.length_reads hloop
  have hletters := x.pipeline.source.journal.length_letters
  rw [hstats] at hfailures hinvalid hdecode hprocessed
  exact ⟨rfl, hfailures, hinvalid, hdecode, by omega⟩

/-- **The counters add up**: whatever is published, whatever the processor and the sink answer, in
any order of steps. Whenever the tasks wait, each message that was handed to the loop was invalid,
has been answered by the processor or has a dispatch that was not answered. When the loop has ended,
the letters, the retries and the messages that were read are accounted for as well. -/
theorem run_balanced (policy : RetryPolicy) (errorBackoff capacity pollWindow : Nat)
    (signal : Bool) (actions : List Action) :
    let x := (new policy errorBackoff capacity pollWindow signal).run actions
    x.pipeline.stats.consumed = x.pipeline.stats.invalid + x.pipeline.stats.processed +
      x.pipeline.stats.failed + x.pipeline.dispatches.countP Dispatch.isUnanswered ∧
    ∀ ending, x.pipeline.loop = .finished ending →
      x.Balanced ((new policy errorBackoff capacity pollWindow signal).dealings actions) := by
  have h := (booked_new policy errorBackoff capacity pollWindow signal).run actions
  rw [← dealings_run]
  exact ⟨h.consumed, fun ending => h.balanced_of_finished⟩

/-- The first payload is no order; the second one fails and finds no room in the backlog. -/
def refusedThenFailed : List Action :=
  [.publish (.claim []), .publish (.offer ⟨0, []⟩), .publish (.claim smallOrder),
    .publish (.offer ⟨1, smallOrder⟩), .publish .leave,
    advanceAt 0 .loop .due, advanceAt 0 .loop .due, advanceAt 0 .loop (.message ⟨0, []⟩),
    advanceAt 0 .loop (.sent none), advanceAt 0 .loop (.committed none),
    advanceAt 0 .loop .due, advanceAt 0 .loop .due,
    advanceAt 0 .loop (.message ⟨1, smallOrder⟩),
    advanceAt 0 (.dispatch 0) .due,
    advanceAt 1 (.dispatch 0) (.processed (some (.storage "down"))),
    advanceAt 1 (.dispatch 0) (.sent none), advanceAt 1 (.dispatch 0) (.committed none),
    advanceAt 1 .loop .due, advanceAt 1 .loop .due, advanceAt 1 .loop (.readFailed .closed)]

theorem refusedThenFailed_balanced :
    let x := (new { capacity := 0 } 100 2 10 false).run refusedThenFailed
    x.pipeline.loop = .finished .closed ∧
      x.pipeline.stats = { consumed := 1, failed := 1, decodeErrors := 1 } ∧
      x.pipeline.source.journal.lettersOf .retryOverflow = 1 ∧
      x.Balanced ((new { capacity := 0 } 100 2 10 false).dealings refusedThenFailed) := by
  intro x
  have hends : x.pipeline.loop = .finished .closed ∧
      x.pipeline.stats = { consumed := 1, failed := 1, decodeErrors := 1 } ∧
      x.pipeline.source.journal.lettersOf .retryOverflow = 1 := by
    decide +kernel
  obtain ⟨hloop, hstats, hletters⟩ := hends
  obtain ⟨-, hbalanced⟩ := run_balanced { capacity := 0 } 100 2 10 false refusedThenFailed
  exact ⟨hloop, hstats, hletters, hbalanced _ hloop⟩

end Intake

end OrderDesk
