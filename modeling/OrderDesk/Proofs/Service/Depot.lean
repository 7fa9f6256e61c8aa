import OrderDesk.Proofs.Ingest.Stories
import OrderDesk.Proofs.Storage
import OrderDesk.Service

/-!
# A pipeline that feeds a service

The processor of a pipeline is a service: it saves the order of a dispatch, or fails while its store
is out, and the dispatch hears of it some time later (`Depot.step`). Publishers, tasks and the
service take their steps in any order.

When the pipeline has ended on a closed channel, every message was saved or dead-lettered, and under
each identity the store holds the order that was saved last (`Depot.run_settled`). It is the one of
the highest offset if they were saved in the order of their offsets. A message that failed is tried
again after later ones were saved, so they need not be (`Depot.newest_overwritten`).
-/

namespace OrderDesk

/-! ## What a pipeline hears from its processor -/

theorem Event.success?_of_isQuiet {e : Event} (h : e.isQuiet) : e.success? = none := by
  cases e <;> first | rfl | cases h

namespace Journal

theorem successes_append (events j : Journal) :
    successes (events ++ j) = events.successes ++ j.successes :=
  List.filterMap_append ..

theorem successes_of_isQuiet {events : Journal} (h : ∀ e ∈ events, e.isQuiet) :
    events.successes = [] :=
  List.filterMap_eq_nil_iff.2 fun e he => Event.success?_of_isQuiet (h e he)

end Journal

namespace Pipeline

variable {p p' : Pipeline} {clock : Clock} {q : InFlight Order} {error : Option OrderError}
  {heard : Option (InFlight Order × Option OrderError)}

theorem successes_takes {s s' : Source} (h : s.Takes clock q s') :
    s'.journal.successes = s.journal.successes := by
  cases h <;> rfl

/-- A step that hears nothing from the processor leaves messages with it. -/
theorem Move.of_unheard (hm : p.Move clock p' none) :
    p'.source.journal.successes = p.source.journal.successes ∧ ∀ q ∈ p.active, q ∈ p'.active := by
  cases hm with
  | rest source active =>
    obtain ⟨events, hquiet, he⟩ := source
    refine ⟨?_, fun q hq => active.mem_iff.2 hq⟩
    rw [he, Journal.successes_append, Journal.successes_of_isQuiet hquiet]
    rfl
  | refuse m e payload source active =>
    refine ⟨?_, fun q hq => active.mem_iff.2 hq⟩
    rw [source]
    rfl
  | accept q taken valid active =>
    exact ⟨successes_takes taken, fun q hq => active.mem_iff.2 (List.mem_cons_of_mem _ hq)⟩
  | reject q s taken e invalid source active =>
    refine ⟨?_, fun q hq => active.mem_iff.2 hq⟩
    rw [source]
    exact show s.journal.successes = _ from successes_takes taken
  | call q held source active =>
    refine ⟨?_, fun q hq => active.mem_iff.2 hq⟩
    rw [source]
    rfl

/-- A message whose answer was heard is no longer with the processor. -/
theorem Move.of_heard (hm : p.Move clock p' (some (q, error))) :
    p'.source.journal.successes =
      Journal.successes [.answered q error] ++ p.source.journal.successes ∧
      p.active.Perm (q :: p'.active) := by
  cases hm with
  | succeed q source active =>
    refine ⟨?_, active⟩
    rw [source]
    rfl
  | fail q e source active =>
    refine ⟨?_, active⟩
    rw [source]
    let s := p.source.record (.answered q (some e))
    exact (Journal.successes_congr (s.still_onFail clock q true e.text).dispatches).trans rfl

/-- The orders under way are those that the messages carry. -/
def Decoded (p : Pipeline) : Prop := ∀ q ∈ p.pending, Order.ofBytes q.raw.payload = .ok q.value

theorem Decoded.takes {s : Source} (h : p.Decoded) (ht : p.source.Takes clock q s) :
    Order.ofBytes q.raw.payload = .ok q.value ∧
      ∀ n ∈ s.backlog.messages, Order.ofBytes n.raw.payload = .ok n.value := by
  cases ht with
  | fresh m o payload => exact ⟨payload, fun n hn => h n (List.mem_append_right _ hn)⟩
  | again _ backlog due =>
    have hbacklog := Backlog.messages_popEligible due
    refine ⟨h q (List.mem_append_right _ ?_), fun n hn => h n (List.mem_append_right _ ?_)⟩
    · rw [hbacklog]
      exact List.mem_cons_self
    · rw [hbacklog]
      exact List.mem_cons_of_mem _ hn

theorem Move.decoded (hm : p.Move clock p' heard) (h : p.Decoded) : p'.Decoded := by
  have hactive : ∀ q ∈ p.active, Order.ofBytes q.raw.payload = .ok q.value :=
    fun q hq => h q (List.mem_append_left _ hq)
  have hbacklog : ∀ q ∈ p.source.backlog.messages, Order.ofBytes q.raw.payload = .ok q.value :=
    fun q hq => h q (List.mem_append_right _ hq)
  intro n hn
  rcases List.mem_append.1 hn with hn | hn
  · cases hm with
    | rest source active => exact hactive n (active.mem_iff.1 hn)
    | refuse m e payload source active => exact hactive n (active.mem_iff.1 hn)
    | accept q taken valid active =>
      rcases List.mem_cons.1 (active.mem_iff.1 hn) with rfl | hn
      · exact (h.takes taken).1
      · exact hactive n hn
    | reject q s taken e invalid source active => exact hactive n (active.mem_iff.1 hn)
    | call q held source active => exact hactive n (active.mem_iff.1 hn)
    | succeed q source active | fail q e source active =>
      exact hactive n (active.mem_iff.2 (List.mem_cons_of_mem _ hn))
  · cases hm with
    | rest source active =>
      obtain ⟨events, -, he⟩ := source
      rw [he] at hn
      exact hbacklog n hn
    | refuse m e payload source active =>
      rw [source] at hn
      exact hbacklog n hn
    | accept q taken valid active => exact (h.takes taken).2 n hn
    | reject q s taken e invalid source active =>
      rw [source] at hn
      exact (h.takes taken).2 n hn
    | call q held source active | succeed q source active =>
      rw [source] at hn
      exact hbacklog n hn
    | fail q e source active =>
      rw [source] at hn
      rcases (p.source.record (.answered q (some e))).onFail_cases clock q e.text with
        ⟨-, he⟩ | ⟨-, backlog, hpush, he⟩ | ⟨-, -, he⟩
      · rw [he] at hn
        exact hbacklog n hn
      · rw [he] at hn
        rcases List.mem_cons.1 ((Backlog.messages_push hpush).mem_iff.1 hn) with rfl | hn
        · exact hactive q (active.mem_iff.2 List.mem_cons_self)
        · exact hbacklog n hn
      · rw [he] at hn
        exact hbacklog n hn

end Pipeline

/-! ## Steps -/

/-- A pipeline at the end of a channel, with a service as its processor. -/
structure Depot where
  intake : Intake
  service : Service
  /-- What the service has answered and the dispatches have not heard. -/
  answers : List (InFlight Order × Option OrderError) := []
  /-- The messages whose orders were saved, the latest one first. -/
  saved : List (InFlight Order) := []

namespace Depot

inductive Action where
  /-- A step of the intake. What it hears from the processor is what the service has answered. -/
  | intake (action : Intake.Action)
  /-- The service processes the order of a dispatch. -/
  | serve (id : Nat)
  /-- The store goes out, or is back. -/
  | outage (message? : Option String)

def journal (x : Depot) : Journal := x.intake.pipeline.source.journal

/-- The message of a dispatch that has called the service and has no answer yet. -/
def waiting? (x : Depot) (id : Nat) : Option (InFlight Order) :=
  (x.intake.pipeline.dispatch? id).bind fun d =>
    if (x.answers.map (·.1)).contains d.message then none
    else if d.stage = .processing then some d.message
    else none

def serve (x : Depot) (q : InFlight Order) : Depot :=
  match x.service.save q.value with
  | (.ok (), service) =>
    { x with service, answers := (q, none) :: x.answers, saved := q :: x.saved }
  | (.error e, service) => { x with service, answers := (q, some e) :: x.answers }

/-- One step; `none` if nobody can take it. -/
def step (x : Depot) : Action → Option Depot
  | .intake action =>
    match x.intake.hears action with
    | none => (x.intake.step action).map fun intake => { x with intake }
    | some heard =>
      if heard ∈ x.answers then
        (x.intake.step action).map fun intake =>
          { x with intake, answers := x.answers.erase heard }
      else none
  | .serve id => (x.waiting? id).map x.serve
  | .outage message? => some { x with service := { x.service with outage := message? } }

/-- The actions in this order; those that nobody can take are left out. -/
def run (x : Depot) (actions : List Action) : Depot :=
  runSteps step x actions

/-- A pipeline that has just been started, with a service that may hold orders already. -/
def new (policy : RetryPolicy) (errorBackoff capacity pollWindow : Nat) (signal : Bool)
    (service : Service) : Depot where
  intake := .new policy errorBackoff capacity pollWindow signal
  service

/-! ## What a step keeps -/

/-- The last order that was saved under an identity. -/
def lastSaved? (x : Depot) (uid : String) : Option Order :=
  (x.saved.find? (·.value.uid == uid)).map (·.value)

/-- Every answer of the service is about a message of a dispatch, and what it saved is what the
dispatches have heard or will hear. The store held `initial` before. -/
structure Sound (policy : RetryPolicy) (initial : OrderStore) (x : Depot) : Prop where
  intake : x.intake.Sound policy
  decoded : x.intake.pipeline.Decoded
  awaited : ∀ r ∈ x.answers, r.1 ∈ x.intake.pipeline.active
  once : (x.answers.map (·.1)).Nodup
  saved : (x.saved.map (·.raw)).Perm
    (Journal.successes (x.answers.map fun r => .answered r.1 r.2) ++ x.journal.successes)
  carried : ∀ q ∈ x.saved, Order.ofBytes q.raw.payload = .ok q.value
  stored : ∀ uid, x.service.store.find? uid = (x.lastSaved? uid).or (initial.find? uid)

variable {policy : RetryPolicy} {initial : OrderStore} {x x' : Depot} {q : InFlight Order}

theorem sound_new (policy : RetryPolicy) (errorBackoff capacity pollWindow : Nat)
    (signal : Bool) (service : Service) :
    (new policy errorBackoff capacity pollWindow signal service).Sound policy service.store where
  intake := Intake.sound_new policy errorBackoff capacity pollWindow signal
  decoded _ h := nomatch h
  awaited _ h := nomatch h
  once := .nil
  saved := .nil
  carried _ h := nomatch h
  stored _ := rfl

theorem waiting?_eq_some {id : Nat} (h : x.waiting? id = some q) :
    q ∈ x.intake.pipeline.active ∧ q ∉ x.answers.map (·.1) := by
  obtain ⟨d, hd, h⟩ := Option.bind_eq_some_iff.1 h
  split at h
  · cases h
  rename_i hnew
  split at h
  · rename_i hstage
    cases h
    refine ⟨List.mem_filterMap.2 ⟨.held d.message, ?_, rfl⟩, mt List.contains_iff_mem.2 hnew⟩
    refine List.mem_flatMap.2 ⟨d, List.mem_of_find?_eq_some hd, ?_⟩
    rw [Dispatch.custody, hstage]
    exact List.mem_singleton_self _
  · cases h

/-- A save puts the order into the store, unless the store is out. -/
theorem save_cases (s : Service) (o : Order) :
    (∃ s', s.save o = (.ok (), s') ∧ s'.store = s.store.save o) ∨
      ∃ e s', s.save o = (.error e, s') ∧ s'.store = s.store := by
  rw [Service.save, Service.write, Service.reach]
  cases s.outage with
  | none => exact .inl ⟨_, rfl, rfl⟩
  | some message => exact .inr ⟨_, _, rfl, rfl⟩

theorem Sound.serve (h : x.Sound policy initial) (hq : q ∈ x.intake.pipeline.active)
    (hnew : q ∉ x.answers.map (·.1)) : (x.serve q).Sound policy initial := by
  have hawaited : ∀ e, ∀ r ∈ (q, e) :: x.answers, r.1 ∈ x.intake.pipeline.active := by
    intro e r hr
    rcases List.mem_cons.1 hr with rfl | hr
    · exact hq
    · exact h.awaited r hr
  have honce := List.nodup_cons.2 ⟨hnew, h.once⟩
  rcases save_cases x.service q.value with ⟨s', hs, hstore⟩ | ⟨e, s', hs, hstore⟩
  · rw [Depot.serve, hs]
    refine ⟨h.intake, h.decoded, hawaited none, honce, h.saved.cons q.raw, fun n hn => ?_,
      fun uid => ?_⟩
    · rcases List.mem_cons.1 hn with rfl | hn
      · exact h.decoded n (List.mem_append_left _ hq)
      · exact h.carried n hn
    · rw [hstore, OrderStore.find?_save, h.stored, lastSaved?, lastSaved?, List.find?_cons]
      by_cases huid : q.value.uid = uid
      · rw [if_pos huid, beq_iff_eq.2 huid]
        rfl
      · rw [if_neg huid, beq_false_of_ne huid]
  · rw [Depot.serve, hs]
    refine ⟨h.intake, h.decoded, hawaited (some e), honce, h.saved, h.carried, fun uid => ?_⟩
    rw [hstore]
    exact h.stored uid

/-- A step of the pipeline that hears nothing from the service. -/
theorem Sound.unheard (h : x.Sound policy initial) {action : Intake.Action} {intake : Intake}
    (hhears : x.intake.hears action = none) (hs : x.intake.step action = some intake) :
    Sound policy initial { x with intake } := by
  have hsound := h.intake.step hs
  rcases Intake.move_step h.intake hs with ⟨clock, -, hm⟩ | ⟨-, -, hsource, hdispatches⟩
  · rw [hhears] at hm
    obtain ⟨hsuccesses, hactive⟩ := hm.of_unheard
    refine ⟨hsound, hm.decoded h.decoded, fun r hr => hactive _ (h.awaited r hr), h.once, ?_,
      h.carried, h.stored⟩
    rw [journal, hsuccesses]
    exact h.saved
  · have hactive : intake.pipeline.active = x.intake.pipeline.active := by
      rw [Pipeline.active, hdispatches, Pipeline.active]
    refine ⟨hsound, ?_, ?_, h.once, ?_, h.carried, h.stored⟩
    · rw [Pipeline.Decoded, Pipeline.pending, hactive, hsource]
      exact h.decoded
    · rw [hactive]
      exact h.awaited
    · rw [journal, hsource]
      exact h.saved

/-- A dispatch hears what the service has answered. -/
theorem Sound.heard (h : x.Sound policy initial) {action : Intake.Action} {intake : Intake}
    {heard : InFlight Order × Option OrderError} (hhears : x.intake.hears action = some heard)
    (hmem : heard ∈ x.answers) (hs : x.intake.step action = some intake) :
    Sound policy initial { x with intake, answers := x.answers.erase heard } := by
  obtain ⟨q, error⟩ := heard
  have hsound := h.intake.step hs
  rcases Intake.move_step h.intake hs with ⟨clock, -, hm⟩ | ⟨-, hnone, -⟩
  · rw [hhears] at hm
    obtain ⟨hsuccesses, hactive⟩ := hm.of_heard
    have hp := List.perm_cons_erase hmem
    have honce := ((hp.map (·.1)).nodup_iff).1 h.once
    rw [List.map_cons, List.nodup_cons] at honce
    refine ⟨hsound, hm.decoded h.decoded, fun r hr => ?_, honce.2, ?_, h.carried, h.stored⟩
    · have hr' := h.awaited r (List.mem_of_mem_erase hr)
      refine (List.mem_cons.1 (hactive.mem_iff.1 hr')).resolve_left fun heq => honce.1 ?_
      exact List.mem_map.2 ⟨r, hr, heq⟩
    · rw [journal, hsuccesses]
      have hevents := (hp.map fun r => Event.answered r.1 r.2).filterMap Event.success?
      refine (h.saved.trans (hevents.append_right _)).trans ?_
      rw [← List.append_assoc]
      refine List.Perm.append_right _ (.trans (.of_eq ?_) List.perm_append_comm)
      exact Journal.successes_append [.answered q error] _
  · rw [hhears] at hnone
    cases hnone

theorem Sound.step (h : x.Sound policy initial) {action : Action}
    (hs : x.step action = some x') : x'.Sound policy initial := by
  cases action with
  | intake action =>
    simp only [Depot.step] at hs
    split at hs
    · rename_i hhears
      obtain ⟨intake, hintake, rfl⟩ := Option.map_eq_some_iff.1 hs
      exact h.unheard hhears hintake
    · rename_i heard hhears
      split at hs
      · rename_i hmem
        obtain ⟨intake, hintake, rfl⟩ := Option.map_eq_some_iff.1 hs
        exact h.heard hhears hmem hintake
      · cases hs
  | serve id =>
    obtain ⟨q, hq, rfl⟩ := Option.map_eq_some_iff.1 hs
    obtain ⟨hactive, hnew⟩ := waiting?_eq_some hq
    exact h.serve hactive hnew
  | outage message? =>
    cases hs
    exact ⟨h.intake, h.decoded, h.awaited, h.once, h.saved, h.carried, h.stored⟩

theorem Sound.run (h : x.Sound policy initial) (actions : List Action) :
    (x.run actions).Sound policy initial :=
  runSteps_keeps (fun h hs => h.step hs) h actions

/-! ## The store in the end -/

/-- Under an identity the store holds the order of the message with the highest offset, among those
of that identity whose orders were saved. -/
def HoldsNewest (x : Depot) (uid : String) : Prop :=
  ∀ q ∈ x.saved, q.value.uid = uid →
    (∀ n ∈ x.saved, n.value.uid = uid → n.offset ≤ q.offset) →
    x.service.store.find? uid = some q.value

/-- What became of the messages, and what the store holds, which held `initial` before. -/
structure Settled (initial : OrderStore) (x : Depot) : Prop where
  /-- Every message was saved or dead-lettered, and not both. -/
  published : x.intake.inlet.published.Perm
    (x.saved.map (·.raw) ++ x.journal.letters.map DeadLetter.message)
  distinct : (x.saved.map (·.offset)).Nodup
  /-- The orders that were saved are those of the messages that were processed. -/
  processed : (x.saved.map (·.raw)).Perm x.journal.successes
  carried : ∀ q ∈ x.saved, Order.ofBytes q.raw.payload = .ok q.value
  /-- The last save of an identity is what the store holds. -/
  stored : ∀ uid, x.service.store.find? uid = (x.lastSaved? uid).or (initial.find? uid)
  newest : ∀ uid, ((x.saved.filter (·.value.uid == uid)).map (·.offset)).Pairwise (· > ·) →
    x.HoldsNewest uid

/-- If messages were saved in the order of their offsets, the last one has the highest. -/
theorem holdsNewest_of_pairwise {uid : String}
    (hstored : x.service.store.find? uid = (x.lastSaved? uid).or (initial.find? uid))
    (h : ((x.saved.filter (·.value.uid == uid)).map (·.offset)).Pairwise (· > ·)) :
    x.HoldsNewest uid := by
  intro q hq huid hmax
  have hmem : q ∈ x.saved.filter (·.value.uid == uid) :=
    List.mem_filter.2 ⟨hq, beq_iff_eq.2 huid⟩
  have hmax' : ∀ n ∈ x.saved.filter (·.value.uid == uid), n.offset ≤ q.offset := fun n hn =>
    hmax n (List.mem_filter.1 hn).1 (beq_iff_eq.1 (List.mem_filter.1 hn).2)
  rw [hstored, lastSaved?, ← List.head?_filter]
  revert h hmem hmax'
  cases x.saved.filter (·.value.uid == uid) with
  | nil => exact fun h hmem => nomatch hmem
  | cons n ns =>
    intro h hmem hmax
    rcases List.mem_cons.1 hmem with rfl | hmem
    · rfl
    · rw [List.map_cons, List.pairwise_cons] at h
      have hgt := h.1 _ (List.mem_map_of_mem hmem)
      exact absurd (hmax n List.mem_cons_self) (Nat.not_le_of_lt hgt)

theorem Sound.settled (h : x.Sound policy initial)
    (hloop : x.intake.pipeline.loop = .finished .closed) : x.Settled initial := by
  have hdrained := h.intake.drained hloop
  have hanswers : x.answers = [] := by
    refine List.eq_nil_iff_forall_not_mem.2 fun r hr => ?_
    have hactive := h.awaited r hr
    rw [Pipeline.active, hdrained.dispatches] at hactive
    cases hactive
  have hprocessed : (x.saved.map (·.raw)).Perm x.journal.successes := by
    have hsaved := h.saved
    rw [hanswers] at hsaved
    exact hsaved
  have hpublished : x.intake.inlet.published.Perm
      (x.saved.map (·.raw) ++ x.journal.letters.map DeadLetter.message) :=
    (hdrained.outcomes rfl).trans (hprocessed.symm.append_right _)
  have hoffsets : (x.intake.inlet.published.map (·.offset)).Nodup := by
    have hreads := hdrained.reads
    rw [hdrained.backlog rfl] at hreads
    exact (((hdrained.published rfl).trans hreads.symm).nodup_iff).2 hdrained.distinct
  refine ⟨hpublished, ?_, hprocessed, h.carried, h.stored,
    fun uid => holdsNewest_of_pairwise (h.stored uid)⟩
  have hdistinct := ((hpublished.map (·.offset)).nodup_iff).1 hoffsets
  rw [List.map_append, List.map_map] at hdistinct
  exact hdistinct.of_append_left

/-- Whatever is published and whenever the store is out, in any order of steps. -/
theorem run_settled (policy : RetryPolicy) (errorBackoff capacity pollWindow : Nat)
    (signal : Bool) (service : Service) (actions : List Action)
    (h : ((new policy errorBackoff capacity pollWindow signal service).run
      actions).intake.pipeline.loop = .finished .closed) :
    ((new policy errorBackoff capacity pollWindow signal service).run actions).Settled
      service.store :=
  ((sound_new policy errorBackoff capacity pollWindow signal service).run actions).settled h

/-! ### A retry after a later message -/

/-- A valid order, its records written as arrays; `entry` tells its versions apart. -/
def version (entry : String) : Bytes :=
  ("[\"u\",\"t\",\"" ++ entry ++ "\",[\"n\",\"p\",\"z\",\"c\",\"a\",\"r\",\"a@b.c\"]," ++
    "[\"t\",\"\",\"c\",\"p\",1,1,\"b\",1,1,1],[[1,\"t\",1,\"r\",\"n\",0,\"s\",1,1,\"b\",0]]," ++
    "\"l\",\"\",\"c\",\"d\",\"s\",1,\"2021-11-26T06:22:19Z\",\"o\"]").toUTF8.toList

/-- A step at a moment of the first of May 2024. -/
def advanceAt (now : Time) (t : Task) (a : Answer) : Action :=
  .intake (.advance t ⟨now, ⟨⟨2024, 5, 1⟩, 0, 0⟩⟩ a)

/-- Two versions of an order are published. The store is out when the first one is processed and
back for the second one; then the first one is tried again. -/
def lateRetry : List Action :=
  [.intake (.publish (.claim (version "e"))), .intake (.publish (.offer ⟨0, version "e"⟩)),
    .intake (.publish (.claim (version "f"))), .intake (.publish (.offer ⟨1, version "f"⟩)),
    .intake (.publish .leave), .outage (some "down"),
    advanceAt 0 .loop .due, advanceAt 0 .loop .due,
    advanceAt 0 .loop (.message ⟨0, version "e"⟩),
    advanceAt 0 (.dispatch 0) .due, .serve 0,
    advanceAt 1 (.dispatch 0) (.processed (some (.storage "down"))), .outage none,
    advanceAt 1 .loop .due, advanceAt 1 .loop .due,
    advanceAt 1 .loop (.message ⟨1, version "f"⟩),
    advanceAt 1 (.dispatch 1) .due, .serve 1, advanceAt 1 (.dispatch 1) (.processed none),
    advanceAt 1 (.dispatch 1) (.committed none),
    advanceAt 6 .loop .due, advanceAt 6 .loop .due,
    advanceAt 6 (.dispatch 2) .due, .serve 2, advanceAt 6 (.dispatch 2) (.processed none),
    advanceAt 6 (.dispatch 2) (.committed none),
    advanceAt 6 .loop .due, advanceAt 6 .loop .due, advanceAt 6 .loop (.readFailed .closed)]

def emptyService : Service where
  store := .empty
  cache := .lru { cache := ⟨∅, .empty, 16⟩, metrics := { backend := "lru" } }

/-- How the run ends, and what is saved in it. -/
theorem lateRetry_run :
    ((new { backoff := 5 } 100 2 10 false emptyService).run lateRetry).intake.pipeline.loop =
      .finished .closed ∧
    ((new { backoff := 5 } 100 2 10 false emptyService).run lateRetry).saved.map
      (fun q => (q.offset, q.value.uid, q.value.entry)) = [(0, "u", "e"), (1, "u", "f")] := by
  decide +kernel

theorem lateRetry_settled :
    ((new { backoff := 5 } 100 2 10 false emptyService).run lateRetry).intake.pipeline.loop =
      .finished .closed ∧
    ((new { backoff := 5 } 100 2 10 false emptyService).run lateRetry).Settled
      emptyService.store :=
  ⟨lateRetry_run.1, run_settled { backoff := 5 } 100 2 10 false emptyService lateRetry
    lateRetry_run.1⟩

/-- The version that was published first is saved last. -/
theorem newest_overwritten :
    ((new { backoff := 5 } 100 2 10 false emptyService).run lateRetry).intake.pipeline.loop =
      .finished .closed ∧
    ¬ ((new { backoff := 5 } 100 2 10 false emptyService).run lateRetry).HoldsNewest "u" := by
  obtain ⟨hloop, hsaved⟩ := lateRetry_run
  have hsound := (sound_new { backoff := 5 } 100 2 10 false emptyService).run lateRetry
  refine ⟨hloop, fun hnewest => ?_⟩
  have hstored := hsound.stored "u"
  generalize (new { backoff := 5 } 100 2 10 false emptyService).run lateRetry = x
    at hsaved hstored hnewest
  obtain ⟨first, rest, hx, hfirst, hrest⟩ := List.map_eq_cons_iff.1 hsaved
  obtain ⟨second, rest', rfl, hsecond, hrest'⟩ := List.map_eq_cons_iff.1 hrest
  obtain rfl := List.map_eq_nil_iff.1 hrest'
  simp only [Prod.mk.injEq] at hfirst hsecond
  obtain ⟨hfirstOffset, hfirstUid, hfirstEntry⟩ := hfirst
  obtain ⟨hsecondOffset, hsecondUid, hsecondEntry⟩ := hsecond
  have hheld : x.service.store.find? "u" = some first.value := by
    rw [hstored, lastSaved?, hx, List.find?_cons, hfirstUid]
    rfl
  have hclaimed : x.service.store.find? "u" = some second.value := by
    refine hnewest second (hx ▸ List.mem_cons_of_mem _ List.mem_cons_self) hsecondUid
      fun n hn _ => ?_
    rw [hx] at hn
    rcases List.mem_pair.1 hn with rfl | rfl <;> omega
  have hentry : first.value.entry = second.value.entry :=
    congrArg Order.entry (Option.some.inj (hheld.symm.trans hclaimed))
  rw [hfirstEntry, hsecondEntry] at hentry
  revert hentry
  decide

end Depot

end OrderDesk
