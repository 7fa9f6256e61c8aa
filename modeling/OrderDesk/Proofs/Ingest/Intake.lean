import OrderDesk.Ingest.Pipeline
import OrderDesk.Proofs.Calls
import OrderDesk.Proofs.Ingest.Dealings
import OrderDesk.Proofs.Ingest.Delivery

/-!
# How a pipeline ends

A pipeline reads from a channel while publishers put messages in, the signal to stop comes and
goes, and orders are processed with any outcome. Publishers and tasks take their steps in any order
(`Intake.step`).

The messages of a pipeline are in the custody of its tasks (`Pipeline.custody`). A loop that ends
has no dispatch left, hence nothing in custody: what was read is acknowledged or in the backlog. If
it ends because the channel is closed, then nothing is in the backlog either and nothing is unread
(`Intake.run_drained`). The journal that is spoken of is true to what went on with the processor, the
sink and the transport (`Intake.dealings_run`).
-/

namespace OrderDesk

/-! ## The messages of tasks -/

def Loop.custody : Loop → List Custody
  | .consuming call => call.custody
  | .rejecting call => [.settling call]
  | _ => []

/-- A loop that waits for its dispatches to end was told to stop; one that has ended has none. If
the channel was closed, nothing is left to read or to try again. -/
def Loop.Ends (ds : List Dispatch) (b : Backlog Order) (c : Channel) : Loop → Prop
  | .draining ending => ending = .stopped
  | .finished ending => ds = [] ∧ (ending = .closed → b.messages = [] ∧ c.isExhausted)
  | _ => True

/-- The channel after a loop was told this; `none` if it is not told this. What the processor and
the clocks say is not up to the channel. -/
def Loop.answer (c : Channel) (a : Answer) : Loop → Option Channel
  | .consuming call => c.answerConsume call a
  | .rejecting call => c.answerSettle call a
  | _ => some c

def Dispatch.Stage.answer (c : Channel) (a : Answer) : Dispatch.Stage → Option Channel
  | .settling call => c.answerSettle call a
  | _ => some c

def Dispatch.custody (d : Dispatch) : List Custody :=
  match d.stage with
  | .queued | .processing => [.held d.message]
  | .settling call => [.settling call]
  | .done => []

namespace Pipeline

variable {p : Pipeline} {d : Dispatch}

/-- What the tasks have in custody. -/
def custody (p : Pipeline) : List Custody :=
  p.loop.custody ++ p.dispatches.flatMap Dispatch.custody

/-- Every dispatch has its own number, below that of the next one. -/
structure Numbered (ds : List Dispatch) (next : Nat) : Prop where
  distinct : (ds.map (·.id)).Nodup
  started : ∀ d ∈ ds, d.id < next

/-- Of what is told dispatch by dispatch, those that are done have no part. -/
theorem flatMap_reap {β : Type} (f : Dispatch → List β) (hf : ∀ d, d.stage = .done → f d = [])
    (ds : List Dispatch) : (ds.filter fun d => !d.isDone).flatMap f = ds.flatMap f := by
  induction ds with
  | nil => rfl
  | cons d ds ih =>
    rw [List.filter_cons]
    split
    · rw [List.flatMap_cons, List.flatMap_cons, ih]
    · rename_i hd
      rw [Bool.not_eq_true, Bool.not_eq_false', Dispatch.isDone, beq_iff_eq] at hd
      rw [List.flatMap_cons, ih, hf d hd, List.nil_append]

theorem custody_reap (ds : List Dispatch) :
    (ds.filter fun d => !d.isDone).flatMap Dispatch.custody = ds.flatMap Dispatch.custody :=
  flatMap_reap Dispatch.custody (fun d hd => by rw [Dispatch.custody, hd]) ds

theorem reap_eq_nil (h : p.allDone) : p.reap.dispatches = [] := by
  refine List.filter_eq_nil_iff.2 fun d hd => ?_
  rw [List.all_eq_true.1 h d hd]
  exact Bool.false_ne_true

theorem Numbered.reap (h : Numbered p.dispatches p.started) :
    Numbered p.reap.dispatches p.reap.started where
  distinct := h.distinct.sublist (List.filter_sublist.map _)
  started d hd := h.started d (List.mem_of_mem_filter hd)

theorem Numbered.spawn (h : Numbered p.dispatches p.started) (m : InFlight Order) :
    Numbered (p.spawn m).dispatches (p.spawn m).started where
  distinct := by
    rw [Pipeline.spawn, List.map_append, List.nodup_append']
    refine ⟨h.distinct, List.nodup_singleton _, fun id hid hnew => ?_⟩
    obtain ⟨d, hd, rfl⟩ := List.mem_map.1 hid
    have hlt := h.started d hd
    rw [List.eq_of_mem_singleton hnew] at hlt
    exact Nat.lt_irrefl _ hlt
  started d hd := by
    rcases List.mem_append.1 hd with hd | hd
    · exact Nat.lt_succ_of_lt (h.started d hd)
    · rw [List.eq_of_mem_singleton hd]
      exact Nat.lt_succ_self _

theorem ids_enter (p : Pipeline) (id : Nat) (stage : Dispatch.Stage) :
    (p.enter id stage).dispatches.map (·.id) = p.dispatches.map (·.id) := by
  rw [enter, List.map_map]
  refine List.map_congr_left fun d _ => ?_
  dsimp only [Function.comp]
  split <;> rfl

theorem Numbered.enter (h : Numbered p.dispatches p.started) (id : Nat)
    (stage : Dispatch.Stage) :
    Numbered (p.enter id stage).dispatches (p.enter id stage).started where
  distinct := (p.ids_enter id stage).symm ▸ h.distinct
  started d hd := by
    have hid : d.id ∈ p.dispatches.map (·.id) :=
      p.ids_enter id stage ▸ List.mem_map_of_mem hd
    obtain ⟨e, he, hid⟩ := List.mem_map.1 hid
    exact hid ▸ h.started e he

theorem map_stage_of_ne {ds : List Dispatch} {id : Nat} (h : ∀ d ∈ ds, d.id ≠ id)
    (stage : Dispatch.Stage) :
    (ds.map fun d => if d.id = id then { d with stage } else d) = ds := by
  induction ds with
  | nil => rfl
  | cons d ds ih =>
    rw [List.map_cons, if_neg (h d List.mem_cons_self),
      ih fun e he => h e (List.mem_cons_of_mem _ he)]

/-- Of what is told dispatch by dispatch, a dispatch that comes to another stage changes its own
part and nothing else. -/
theorem exists_flatMap_enter {β : Type} (f : Dispatch → List β)
    (h : Numbered p.dispatches p.started) (hd : d ∈ p.dispatches) :
    ∃ rest, (p.dispatches.flatMap f).Perm (f d ++ rest) ∧ ∀ stage,
      ((p.enter d.id stage).dispatches.flatMap f).Perm (f { d with stage } ++ rest) := by
  obtain ⟨xs, ys, hsplit⟩ := List.append_of_mem hd
  have hdistinct := h.distinct
  rw [hsplit, List.map_append, List.map_cons, List.nodup_append', List.nodup_cons] at hdistinct
  obtain ⟨-, ⟨hys, -⟩, hxs⟩ := hdistinct
  have hmove : ∀ e : Dispatch, ((xs ++ e :: ys).flatMap f).Perm
      (f e ++ (xs.flatMap f ++ ys.flatMap f)) := by
    intro e
    rw [List.flatMap_append, List.flatMap_cons]
    exact List.perm_append_comm_assoc _ _ _
  refine ⟨xs.flatMap f ++ ys.flatMap f, ?_, fun stage => ?_⟩
  · rw [hsplit]
    exact hmove d
  · have hstage : (p.enter d.id stage).dispatches = xs ++ { d with stage } :: ys := by
      rw [enter, hsplit, List.map_append, List.map_cons, if_pos rfl,
        map_stage_of_ne fun e he hid => hxs (List.mem_map.2 ⟨e, he, hid⟩) List.mem_cons_self,
        map_stage_of_ne fun e he hid => hys (List.mem_map.2 ⟨e, he, hid⟩)]
    rw [hstage]
    exact hmove { d with stage }

/-- The same where the loop has a part as well, which stays as it is. -/
theorem exists_append_flatMap_enter {β : Type} (f : Dispatch → List β) (front : List β)
    (h : Numbered p.dispatches p.started) (hd : d ∈ p.dispatches) :
    ∃ rest, (front ++ p.dispatches.flatMap f).Perm (f d ++ rest) ∧ ∀ stage,
      (front ++ (p.enter d.id stage).dispatches.flatMap f).Perm
        (f { d with stage } ++ rest) := by
  obtain ⟨rest, hp, henter⟩ := exists_flatMap_enter f h hd
  refine ⟨front ++ rest, ?_, ?_⟩
  · exact (hp.append_left _).trans (List.perm_append_comm_assoc _ _ _)
  · intro stage
    exact ((henter stage).append_left _).trans (List.perm_append_comm_assoc _ _ _)

/-- A dispatch that comes to another stage changes what it has in custody and nothing else. -/
theorem exists_custody_enter (h : Numbered p.dispatches p.started) (hd : d ∈ p.dispatches) :
    ∃ rest, p.custody.Perm (d.custody ++ rest) ∧ ∀ stage,
      (p.enter d.id stage).custody.Perm ({ d with stage }.custody ++ rest) :=
  exists_append_flatMap_enter Dispatch.custody p.loop.custody h hd

end Pipeline

/-! ## The source of a pipeline -/

/-- Every offset is in one place, and those that were acknowledged by who held them were
processed. -/
def Attended (policy : RetryPolicy) (s : Source) (i : Inlet) (cs : List Custody) : Prop :=
  Served policy s i cs s.journal.successes

namespace Attended

variable {policy : RetryPolicy} {s s' : Source} {i : Inlet} {cs cs' : List Custody}
  {m : InFlight Order} {clock : Clock} {a : Answer} {c : Channel}

theorem perm (h : Attended policy s i cs) (hp : cs.Perm cs') : Attended policy s i cs' :=
  Served.perm h hp

theorem consume (h : Attended policy s i cs) (now : Time) :
    Attended policy (s.consume now).1 i (Custody.ofConsume (s.consume now).2 ++ cs) := by
  rw [Attended, Journal.successes_congr (s.still_consume now).dispatches]
  exact Served.consume h now

theorem resumeConsume {call : Consume} {p : Progress Consume Consumed}
    (h : Attended policy s i (call.custody ++ cs))
    (ha : i.channel.answerConsume call a = some c) (hc : call.resume s clock a = some (s', p)) :
    Attended policy s' { i with channel := c } (Custody.ofConsume p ++ cs) := by
  rw [Attended, Journal.successes_congr (Consume.dispatches_resume hc)]
  exact Served.resumeConsume h ha hc

theorem resumeSettle {call : Settle} {p : Progress Settle Settled}
    (h : Attended policy s i (.settling call :: cs))
    (ha : i.channel.answerSettle call a = some c) (hc : call.resume s a = some (s', p)) :
    Attended policy s' { i with channel := c } (Custody.ofSettle p ++ cs) := by
  rw [Attended, Journal.successes_congr (Settle.dispatches_resume hc)]
  exact Served.resumeSettle h ha hc

theorem reject (h : Attended policy s i (.held m :: cs)) (cause : String) :
    Attended policy (s.onFail clock m false cause).1 i
      (Custody.ofSettle (s.onFail clock m false cause).2 ++ cs) := by
  rw [Attended, Journal.successes_congr (s.still_onFail clock m false cause).dispatches]
  exact Served.onFail h false cause

theorem calling (h : Attended policy s i (.held m :: cs)) :
    Attended policy (s.record (.calling m)) i (.held m :: cs) :=
  Served.record h rfl

/-- An order was processed, and its message is acknowledged. -/
theorem succeed (h : Attended policy s i (.held m :: cs)) :
    Attended policy ((s.record (.answered m none)).onSuccess m).1 i
      (.settling ((s.record (.answered m none)).onSuccess m).2 :: cs) :=
  (Served.record (e := .answered m none) h rfl).onSuccess

/-- An order was not processed, and its message is put off or dead-lettered. -/
theorem fail (h : Attended policy s i (.held m :: cs)) (e : OrderError) :
    Attended policy ((s.record (.answered m (some e))).onFail clock m true e.text).1 i
      (Custody.ofSettle
        ((s.record (.answered m (some e))).onFail clock m true e.text).2 ++ cs) := by
  rw [Attended, Journal.successes_congr (Source.still_onFail _ clock m true e.text).dispatches]
  exact (Served.record (e := .answered m (some e)) h rfl).onFail true e.text

end Attended

namespace Pipeline

/-! ## What a step keeps -/

/-- Every message that was read is in one place, the custody of a task included. -/
structure Sound (policy : RetryPolicy) (p : Pipeline) (i : Inlet) : Prop where
  attended : Attended policy p.source i p.custody
  numbered : Numbered p.dispatches p.started
  ends : p.loop.Ends p.dispatches p.source.backlog i.channel

variable {policy : RetryPolicy} {p p' : Pipeline} {d : Dispatch} {i : Inlet}
  {m : InFlight Order} {clock : Clock} {a : Answer} {c : Channel}

theorem sound_reject (hn : Numbered p.dispatches p.started)
    {next : Source × Progress Settle Settled}
    (h : Attended policy next.1 i
      (Custody.ofSettle next.2 ++ p.dispatches.flatMap Dispatch.custody)) :
    (p.reject next).Sound policy i := by
  obtain ⟨source, q⟩ := next
  cases q <;> exact ⟨h, hn, trivial⟩

theorem sound_receive (hn : Numbered p.dispatches p.started)
    (h : Attended policy p.source i (.held m :: p.dispatches.flatMap Dispatch.custody)) :
    (p.receive clock m).Sound policy i := by
  unfold receive
  dsimp only
  split
  · refine ⟨h.perm ?_, Numbered.spawn hn m, trivial⟩
    rw [custody, spawn, List.flatMap_append]
    exact (List.perm_append_singleton _ _).symm
  · rename_i e _
    apply sound_reject
    · exact hn
    · exact h.reject e.text

theorem sound_consumed (hn : Numbered p.dispatches p.started)
    {next : Source × Progress Consume Consumed}
    (h : Attended policy next.1 i
      (Custody.ofConsume next.2 ++ p.dispatches.flatMap Dispatch.custody))
    (hclosed : next.2 = .returns (.failed (.transport .closed)) →
      i.channel.isExhausted ∧ next.1.backlog.messages = []) :
    (p.consumed clock next).Sound policy i := by
  obtain ⟨source, q⟩ := next
  cases q with
  | waits call => exact ⟨h, hn, trivial⟩
  | returns r =>
    cases r with
    | message m => exact sound_receive hn h
    | nothing => exact ⟨h, hn, trivial⟩
    | failed e =>
      cases e with
      | transport e =>
        cases e with
        | closed =>
          obtain ⟨hexhausted, hbacklog⟩ := hclosed rfl
          simp only [consumed]
          split
          · rename_i hempty
            rw [List.isEmpty_iff] at hempty
            exact ⟨h, hn, hempty, fun _ => ⟨hbacklog, hexhausted⟩⟩
          · exact ⟨h, hn, trivial⟩
        | _ => exact ⟨h, hn, trivial⟩
      | _ => exact ⟨h, hn, trivial⟩

/-! ### Dispatches -/

/-- A loop that has ended has no dispatch to go on with. -/
theorem ends_of_mem {loop : Loop} {ds : List Dispatch} {b : Backlog Order}
    (h : loop.Ends ds b c) (hd : d ∈ ds) (ds' : List Dispatch) (b' : Backlog Order)
    (c' : Channel) : loop.Ends ds' b' c' := by
  cases loop with
  | finished ending =>
    rw [h.1] at hd
    exact nomatch hd
  | draining ending => exact h
  | _ => trivial

theorem sound_settled (h : p.Sound policy i) (hd : d ∈ p.dispatches) {stats : Stats}
    (next : Source × Progress Settle Settled) {i' : Inlet}
    (hs : ∀ rest, p.custody.Perm (d.custody ++ rest) →
      Attended policy next.1 i' (Custody.ofSettle next.2 ++ rest)) :
    ({ p with stats }.settled d.id next).Sound policy i' := by
  obtain ⟨rest, hp, henter⟩ := exists_custody_enter h.numbered hd
  have hstage : ∀ stage, ({ d with stage } : Dispatch).custody = Custody.ofSettle next.2 →
      ({ p with source := next.1, stats }.enter d.id stage).Sound policy i' := by
    intro stage hstage
    refine ⟨(hs rest hp).perm ?_, h.numbered.enter _ _, ends_of_mem h.ends hd _ _ _⟩
    rw [← hstage]
    exact (henter stage).symm
  obtain ⟨source, q⟩ := next
  cases q with
  | waits call => exact hstage (.settling call) rfl
  | returns r => exact hstage .done rfl

/-- The processor is done with an order, whatever its answer. -/
theorem sound_answered (h : p.Sound policy i) (hd : d ∈ p.dispatches)
    (hstage : d.stage = .processing) (error : Option OrderError) :
    (p.answered clock d error).Sound policy i := by
  have hheld : d.custody = [.held d.message] := by rw [Dispatch.custody, hstage]
  cases error with
  | none =>
    refine sound_settled h hd (_, .waits _) fun rest hp => ?_
    rw [hheld] at hp
    exact (h.attended.perm hp).succeed
  | some e =>
    refine sound_settled h hd _ fun rest hp => ?_
    rw [hheld] at hp
    exact (h.attended.perm hp).fail e

/-! ### Steps -/

/-- The channel after a task was told this; `none` if it is not told this. -/
def answer (p : Pipeline) (c : Channel) (a : Answer) : Task → Option Channel
  | .loop => p.loop.answer c a
  | .dispatch id => (p.dispatch? id).bind fun d => d.stage.answer c a

theorem Sound.stepDispatch (h : p.Sound policy i) (hd : d ∈ p.dispatches)
    (ha : d.stage.answer i.channel a = some c)
    (hs : p.stepDispatch clock d a = some p') : p'.Sound policy { i with channel := c } := by
  unfold Pipeline.stepDispatch at hs
  split at hs
  case h_1 hstage =>
    rw [hstage] at ha
    cases ha
    cases hs
    obtain ⟨rest, hp, henter⟩ := exists_custody_enter h.numbered hd
    rw [Dispatch.custody, hstage] at hp
    exact ⟨(h.attended.perm hp).calling.perm (henter .processing).symm, h.numbered.enter _ _,
      ends_of_mem h.ends hd _ _ _⟩
  case h_2 hstage =>
    rw [hstage] at ha
    cases ha
    cases hs
    exact sound_answered h hd hstage _
  case h_3 call _ hstage =>
    rw [hstage] at ha
    obtain ⟨⟨source, q⟩, hr, rfl⟩ := Option.map_eq_some_iff.1 hs
    refine sound_settled h hd (source, q) fun rest hp => ?_
    rw [Dispatch.custody, hstage] at hp
    exact (h.attended.perm hp).resumeSettle ha hr
  case h_4 => cases hs

theorem sound_reap (hn : Numbered p.dispatches p.started)
    (h : Attended policy p.source i (p.dispatches.flatMap Dispatch.custody)) {loop : Loop}
    (hloop : loop.custody = [])
    (hends : loop.Ends p.reap.dispatches p.source.backlog i.channel) :
    { p.reap with loop }.Sound policy i := by
  refine ⟨?_, Numbered.reap hn, hends⟩
  rw [custody, hloop, List.nil_append, Pipeline.reap, custody_reap]
  exact h

/-- A loop that is told to stop has ended, or waits for its dispatches. -/
theorem sound_leave (hn : Numbered p.dispatches p.started)
    (h : Attended policy p.source i (p.dispatches.flatMap Dispatch.custody)) :
    (p.leave .stopped).Sound policy i := by
  unfold leave
  split
  · rename_i hempty
    rw [List.isEmpty_iff] at hempty
    exact ⟨h, hn, hempty, fun he => nomatch he⟩
  · exact ⟨h, hn, rfl⟩

theorem Sound.stepLoop (h : p.Sound policy i) (ha : p.loop.answer i.channel a = some c)
    (hs : p.stepLoop clock a = some p') : p'.Sound policy { i with channel := c } := by
  have hattended := h.attended
  rw [custody] at hattended
  unfold Pipeline.stepLoop at hs
  split at hs
  case h_1 hloop =>
    rw [hloop] at ha hattended
    cases ha
    split at hs
    · cases hs
      exact sound_leave h.numbered hattended
    · cases hs
      exact sound_reap h.numbered hattended rfl trivial
  case h_2 hloop =>
    rw [hloop] at ha hattended
    cases ha
    cases hs
    refine sound_consumed h.numbered (hattended.consume clock.now) fun hclosed => ?_
    unfold Source.consume at hclosed
    split at hclosed <;> cases hclosed
  case h_3 call hloop =>
    rw [hloop] at ha hattended
    obtain ⟨⟨source, q⟩, hr, rfl⟩ := Option.map_eq_some_iff.1 hs
    refine sound_consumed h.numbered (hattended.resumeConsume ha hr) fun hclosed => ?_
    rw [show q = _ from hclosed] at hr
    exact Channel.answerConsume_closed ha hr
  case h_4 call hloop =>
    rw [hloop] at ha hattended
    obtain ⟨⟨source, q⟩, hr, rfl⟩ := Option.map_eq_some_iff.1 hs
    exact sound_reject h.numbered (hattended.resumeSettle ha hr)
  case h_5 hloop =>
    rw [hloop] at ha hattended
    cases ha
    split at hs
    · cases hs
      exact sound_reap h.numbered hattended rfl trivial
    · cases hs
  case h_6 till hloop =>
    rw [hloop] at ha hattended
    cases ha
    split at hs
    · cases hs
      exact ⟨hattended, h.numbered, trivial⟩
    · cases hs
  case h_7 ending hloop =>
    rw [hloop] at ha hattended
    have hends := h.ends
    rw [hloop] at hends
    cases ha
    split at hs
    · rename_i hdone
      cases hs
      refine sound_reap h.numbered hattended rfl ⟨reap_eq_nil hdone, fun hclosed => ?_⟩
      exact nomatch hends.symm.trans hclosed
    · cases hs
  case h_8 => cases hs

/-- Every step of every task keeps the messages in their places. -/
theorem Sound.step (h : p.Sound policy i) {t : Task} (ha : p.answer i.channel a t = some c)
    (hs : p.step clock t a = some p') : p'.Sound policy { i with channel := c } := by
  cases t with
  | loop => exact h.stepLoop ha hs
  | dispatch id =>
    obtain ⟨d, hd, hs⟩ := Option.bind_eq_some_iff.1 hs
    rw [answer, hd] at ha
    exact h.stepDispatch (List.mem_of_find?_eq_some hd) ha hs

end Pipeline

/-! ## Runs -/

/-- A pipeline at the end of a channel. -/
structure Intake where
  pipeline : Pipeline
  inlet : Inlet

namespace Intake

inductive Action where
  | publish (step : PublisherStep)
  /-- The signal to stop is given or taken back. -/
  | signal (value : Bool)
  /-- Whoever may give the signal goes away. -/
  | dropSender
  /-- A task is told something and goes on. -/
  | advance (t : Task) (clock : Clock) (a : Answer)

/-- A pipeline that has just been started, at the end of a new channel. -/
def new (policy : RetryPolicy) (errorBackoff capacity pollWindow : Nat) (signal : Bool) :
    Intake where
  pipeline := (Pipeline.new policy errorBackoff).start signal
  inlet := .new capacity pollWindow

/-- One step of a publisher, of whoever may give the signal or of a task; `none` if nobody can take
it. -/
def step (x : Intake) : Action → Option Intake
  | .publish s => (x.inlet.publish s).map fun inlet => { x with inlet }
  | .signal value => some { x with pipeline := x.pipeline.signal value }
  | .dropSender => some { x with pipeline := x.pipeline.dropSender }
  | .advance t clock a =>
    match x.pipeline.answer x.inlet.channel a t, x.pipeline.step clock t a with
    | some channel, some pipeline => some { pipeline, inlet := { x.inlet with channel } }
    | _, _ => none

/-- The actions in this order; those that nobody can take are left out. -/
def run (x : Intake) (actions : List Action) : Intake :=
  runSteps step x actions

variable {policy : RetryPolicy} {x x' : Intake} {ending : Ending}

def Sound (policy : RetryPolicy) (x : Intake) : Prop := x.pipeline.Sound policy x.inlet

theorem sound_new (policy : RetryPolicy) (errorBackoff capacity pollWindow : Nat)
    (signal : Bool) : (new policy errorBackoff capacity pollWindow signal).Sound policy :=
  ⟨.new policy capacity pollWindow, ⟨.nil, fun _ h => nomatch h⟩, trivial⟩

theorem Sound.step (h : x.Sound policy) {action : Action} (hs : x.step action = some x') :
    x'.Sound policy := by
  cases action with
  | publish s =>
    obtain ⟨inlet, hi, rfl⟩ := Option.map_eq_some_iff.1 hs
    refine ⟨Served.publish h.attended hi, h.numbered, ?_⟩
    have hends := h.ends
    revert hends
    cases x.pipeline.loop with
    | finished ending =>
      rintro ⟨hd, hclosed⟩
      refine ⟨hd, fun he => ⟨(hclosed he).1, ?_⟩⟩
      exact h.attended.inlet.exhausted (hclosed he).2 hi
    | _ => exact id
  | signal value | dropSender =>
    cases hs
    exact ⟨h.attended, h.numbered, h.ends⟩
  | advance t clock a =>
    simp only [Intake.step] at hs
    split at hs
    · rename_i channel pipeline ha hp
      cases hs
      exact Pipeline.Sound.step h ha hp
    · cases hs

theorem Sound.run (h : x.Sound policy) (actions : List Action) : (x.run actions).Sound policy :=
  runSteps_keeps (fun h hs => h.step hs) h actions

/-! ## Dealings -/

/-- The dealings of a step: only a task that goes on has any. -/
def deals (x : Intake) (action : Action) (x' : Intake) : Journal :=
  match action with
  | .advance t _ a => x.pipeline.deals t a x'.pipeline
  | _ => []

/-- What goes on between the pipeline and its surroundings in these actions, the latest first. -/
def dealings (x : Intake) (actions : List Action) : Journal := tellSteps step deals x actions

theorem dealings_step {action : Action} (hs : x.step action = some x') :
    x'.pipeline.source.journal.dealings =
      x.deals action x' ++ x.pipeline.source.journal.dealings := by
  cases action with
  | publish s =>
    obtain ⟨inlet, -, rfl⟩ := Option.map_eq_some_iff.1 hs
    rfl
  | signal value | dropSender =>
    cases hs
    rfl
  | advance t clock a =>
    simp only [Intake.step] at hs
    split at hs
    · rename_i channel pipeline _ hp
      cases hs
      exact Pipeline.dealings_step hp
    · cases hs

/-- A pipeline that has just been started keeps a journal that is true to its dealings. -/
theorem dealings_run (policy : RetryPolicy) (errorBackoff capacity pollWindow : Nat)
    (signal : Bool) (actions : List Action) :
    ((new policy errorBackoff capacity pollWindow signal).run
        actions).pipeline.source.journal.dealings =
      (new policy errorBackoff capacity pollWindow signal).dealings actions :=
  (record_runSteps (fun x : Intake => x.pipeline.source.journal.dealings) dealings_step _
    actions).trans (List.append_nil _)

/-! ## Endings -/

/-- What is left when the loop has ended after these dealings with its surroundings. -/
structure Drained (x : Intake) (dealings : Journal) (ending : Ending) : Prop where
  /-- What the journal tells of the processor, the sink and the transport is what went on. -/
  faithful : x.pipeline.source.journal.dealings = dealings
  dispatches : x.pipeline.dispatches = []
  distinct : (x.pipeline.source.journal.reads.map (·.offset)).Nodup
  /-- Every offset that was read is in the backlog or acknowledged. -/
  reads : (x.pipeline.source.journal.reads.map (·.offset)).Perm
    (x.pipeline.source.backlog.messages.map InFlight.offset ++ x.inlet.channel.committed)
  backlog : ending = .closed → x.pipeline.source.backlog.messages = []
  /-- Every offset that was published is acknowledged. -/
  published : ending = .closed →
    (x.inlet.published.map (·.offset)).Perm x.inlet.channel.committed
  /-- Every message that was published was processed or dead-lettered, and not both. -/
  outcomes : ending = .closed → x.inlet.published.Perm
    (x.pipeline.source.journal.successes ++
      x.pipeline.source.journal.letters.map DeadLetter.message)

theorem Sound.drained (h : x.Sound policy) (hloop : x.pipeline.loop = .finished ending) :
    x.Drained x.pipeline.source.journal.dealings ending := by
  have hends := h.ends
  rw [hloop] at hends
  obtain ⟨hd, hclosed⟩ := hends
  have hserved : Served _ _ _ _ _ := h.attended
  rw [Pipeline.custody, hloop, hd] at hserved
  have hpublished : ending = .closed →
      x.inlet.published.Perm x.pipeline.source.journal.reads := by
    intro he
    have hqueue : x.inlet.channel.queue = [] := by
      have hexhausted := (hclosed he).2
      rw [Channel.isExhausted, Bool.and_eq_true, List.isEmpty_iff] at hexhausted
      exact hexhausted.2
    have hp := hserved.inlet.published
    rw [hqueue, List.append_nil] at hp
    exact hp
  refine ⟨rfl, hd, hserved.reads_nodup, hserved.reads_perm, fun he => (hclosed he).1, fun he => ?_,
    fun he => ?_⟩
  · have hreads := hserved.reads_perm
    rw [(hclosed he).1] at hreads
    exact ((hpublished he).map _).trans hreads
  · have hreads := hserved.ledger.reads
    rw [(hclosed he).1] at hreads
    exact ((hpublished he).trans hreads).trans
      (hserved.ledger.departures.symm.trans List.perm_append_comm)

/-- Whatever is published, whatever the processor and the sink answer, in any order of steps. -/
theorem run_drained (policy : RetryPolicy) (errorBackoff capacity pollWindow : Nat)
    (signal : Bool) (actions : List Action) {ending : Ending}
    (h : ((new policy errorBackoff capacity pollWindow signal).run actions).pipeline.loop =
      .finished ending) :
    ((new policy errorBackoff capacity pollWindow signal).run actions).Drained
      ((new policy errorBackoff capacity pollWindow signal).dealings actions) ending := by
  rw [← dealings_run]
  exact ((sound_new policy errorBackoff capacity pollWindow signal).run actions).drained h

/-! ### A failure after the channel was closed -/

/-- An order with one line, its records written as arrays. -/
def smallOrder : Bytes :=
  ("[\"u\",\"t\",\"e\",[\"n\",\"p\",\"z\",\"c\",\"a\",\"r\",\"a@b.c\"]," ++
    "[\"t\",\"\",\"c\",\"p\",1,1,\"b\",1,1,1],[[1,\"t\",1,\"r\",\"n\",0,\"s\",1,1,\"b\",0]]," ++
    "\"l\",\"\",\"c\",\"d\",\"s\",1,\"2021-11-26T06:22:19Z\",\"o\"]").toUTF8.toList

/-- A step at a moment of the first of May 2024. -/
def advanceAt (now : Time) (t : Task) (a : Answer) : Action :=
  .advance t ⟨now, ⟨⟨2024, 5, 1⟩, 0, 0⟩⟩ a

/-- The only message is read and the channel closes; then its first attempt fails, and 5 ms later
the second one succeeds. -/
def lateFailure : List Action :=
  [.publish (.claim smallOrder), .publish (.offer ⟨0, smallOrder⟩), .publish .leave,
    advanceAt 0 .loop .due, advanceAt 0 .loop .due,
    advanceAt 0 .loop (.message ⟨0, smallOrder⟩),
    advanceAt 0 .loop .due, advanceAt 0 .loop .due, advanceAt 0 .loop (.readFailed .closed),
    advanceAt 0 (.dispatch 0) .due,
    advanceAt 1 (.dispatch 0) (.processed (some (.storage "down"))),
    advanceAt 1 .loop .due, advanceAt 1 .loop .due, advanceAt 1 .loop .due,
    advanceAt 1 .loop (.readFailed .closed),
    advanceAt 6 .loop .due, advanceAt 6 .loop .due, advanceAt 6 .loop .due,
    advanceAt 6 .loop .due, advanceAt 6 .loop .due, advanceAt 6 .loop (.readFailed .closed),
    advanceAt 6 (.dispatch 1) .due, advanceAt 6 (.dispatch 1) (.processed none),
    advanceAt 6 (.dispatch 1) (.committed none),
    advanceAt 6 .loop .due, advanceAt 6 .loop .due, advanceAt 6 .loop .due,
    advanceAt 6 .loop (.readFailed .closed)]

theorem lateFailure_drained :
    ((new { backoff := 5 } 100 1 10 false).run lateFailure).pipeline.loop = .finished .closed ∧
      ((new { backoff := 5 } 100 1 10 false).run lateFailure).Drained
        ((new { backoff := 5 } 100 1 10 false).dealings lateFailure) .closed := by
  have h : ((new { backoff := 5 } 100 1 10 false).run lateFailure).pipeline.loop =
      .finished .closed := by
    decide +kernel
  exact ⟨h, run_drained { backoff := 5 } 100 1 10 false lateFailure h⟩

end Intake

end OrderDesk
