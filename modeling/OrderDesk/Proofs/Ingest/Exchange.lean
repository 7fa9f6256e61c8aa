import OrderDesk.Proofs.Calls
import OrderDesk.Proofs.Ingest.Delivery

/-!
# Callers of a source

Callers take messages from a source and hand each of them back once, processed or failed. Their
calls interleave with each other and with the publishers, and the sink and the clocks say whatever
they like (`Exchange.step`).

After any such actions every offset that was read is held by a caller, in the hands of a call, in
the backlog or acknowledged, and in one of these places only; it is acknowledged once at most, and
dead-lettered once at most, and not both on behalf of a caller (`Exchange.run_accounts`).
-/

namespace OrderDesk

/-- A source at the end of a channel, with its callers. -/
structure Exchange where
  source : Source
  inlet : Inlet
  /-- The messages that were taken and not handed back. -/
  held : List (InFlight Order)
  /-- The calls that take a message and have not returned. -/
  taking : List Consume
  /-- The calls that settle a message and have not returned. -/
  settling : List Settle
  /-- The messages that were handed back as processed. -/
  acknowledged : List RawMessage

namespace Exchange

inductive Action where
  | publish (step : PublisherStep)
  | consume (now : Time)
  /-- A call that takes a message is told something and goes on. -/
  | resumeConsume (call : Consume) (clock : Clock) (a : Answer)
  | onSuccess (m : InFlight Order)
  | onFail (m : InFlight Order) (clock : Clock) (retryable : Bool) (cause : String)
  /-- A call that settles a message is told something and goes on. -/
  | resumeSettle (call : Settle) (a : Answer)

def new (policy : RetryPolicy) (capacity pollWindow : Nat) : Exchange where
  source := .new policy
  inlet := .new capacity pollWindow
  held := []
  taking := []
  settling := []
  acknowledged := []

/-- A call that takes a message has come to its next wait or has returned. -/
def took (x : Exchange) : Source × Progress Consume Consumed → Exchange
  | (source, .waits call) => { x with source, taking := call :: x.taking }
  | (source, .returns (.message m)) => { x with source, held := m :: x.held }
  | (source, .returns _) => { x with source }

def settled (x : Exchange) : Source × Progress Settle Settled → Exchange
  | (source, .waits call) => { x with source, settling := call :: x.settling }
  | (source, .returns _) => { x with source }

/-- One step of a publisher or a caller; `none` if nobody can take it. -/
def step (x : Exchange) : Action → Option Exchange
  | .publish s => (x.inlet.publish s).map fun inlet => { x with inlet }
  | .consume now => some (x.took (x.source.consume now))
  | .resumeConsume call clock a =>
    if call ∈ x.taking then
      match x.inlet.channel.answerConsume call a, call.resume x.source clock a with
      | some channel, some next =>
        let inlet := { x.inlet with channel }
        some ({ x with inlet, taking := x.taking.erase call }.took next)
      | _, _ => none
    else none
  | .onSuccess m =>
    if m ∈ x.held then
      let (source, call) := x.source.onSuccess m
      let acknowledged := m.raw :: x.acknowledged
      some ({ x with held := x.held.erase m, acknowledged }.settled (source, .waits call))
    else none
  | .onFail m clock retryable cause =>
    if m ∈ x.held then
      some ({ x with held := x.held.erase m }.settled (x.source.onFail clock m retryable cause))
    else none
  | .resumeSettle call a =>
    if call ∈ x.settling then
      match x.inlet.channel.answerSettle call a, call.resume x.source a with
      | some channel, some next =>
        let inlet := { x.inlet with channel }
        some ({ x with inlet, settling := x.settling.erase call }.settled next)
      | _, _ => none
    else none

/-- The actions in this order; those that nobody can take are left out. -/
def run (x : Exchange) (actions : List Action) : Exchange :=
  runSteps step x actions

/-! ## Where the messages are -/

/-- The messages in the hands of calls. -/
def underWay (x : Exchange) : List Custody :=
  x.taking.flatMap Consume.custody ++ x.settling.map Custody.settling

def custody (x : Exchange) : List Custody := x.held.map Custody.held ++ x.underWay

/-- Every message that was read is in one place. -/
def Invariant (policy : RetryPolicy) (x : Exchange) : Prop :=
  Served policy x.source x.inlet x.custody x.acknowledged

variable {policy : RetryPolicy} {x x' : Exchange}

/-- A call that takes a message has put what it has where it belongs. -/
theorem invariant_took {next : Source × Progress Consume Consumed}
    (h : Served policy next.1 x.inlet (Custody.ofConsume next.2 ++ x.custody) x.acknowledged) :
    (x.took next).Invariant policy := by
  obtain ⟨source, p⟩ := next
  cases p with
  | waits call =>
    refine Served.perm h ?_
    unfold custody underWay
    simp only [took, List.flatMap_cons, List.append_assoc]
    exact List.perm_append_comm_assoc _ _ _
  | returns r => cases r <;> exact h

theorem invariant_settled {next : Source × Progress Settle Settled}
    (h : Served policy next.1 x.inlet (Custody.ofSettle next.2 ++ x.custody) x.acknowledged) :
    (x.settled next).Invariant policy := by
  obtain ⟨source, p⟩ := next
  cases p with
  | waits call =>
    refine Served.perm h ?_
    have hp : (Custody.settling call :: (x.held.map Custody.held ++
        x.taking.flatMap Consume.custody ++ x.settling.map Custody.settling)).Perm _ :=
      List.perm_middle.symm
    rw [List.append_assoc, List.append_assoc] at hp
    exact hp
  | returns r => exact h

theorem custody_held {m : InFlight Order} (hm : m ∈ x.held) :
    x.custody.Perm (.held m :: { x with held := x.held.erase m }.custody) :=
  ((List.perm_cons_erase hm).map Custody.held).append_right _

theorem custody_taking {call : Consume} (hc : call ∈ x.taking) :
    x.custody.Perm (call.custody ++ { x with taking := x.taking.erase call }.custody) := by
  have hp := ((List.perm_cons_erase hc).flatMap_right Consume.custody).append_right
    (x.settling.map Custody.settling)
  rw [List.flatMap_cons, List.append_assoc] at hp
  exact (hp.append_left _).trans (List.perm_append_comm_assoc _ _ _)

theorem custody_settling {call : Settle} (hc : call ∈ x.settling) :
    x.custody.Perm (.settling call :: { x with settling := x.settling.erase call }.custody) := by
  have hp := (List.perm_cons_erase hc).map Custody.settling
  unfold custody underWay
  rw [← List.append_assoc, ← List.append_assoc]
  exact (hp.append_left _).trans List.perm_middle

theorem Invariant.step (h : x.Invariant policy) {action : Action} (hs : x.step action = some x') :
    x'.Invariant policy := by
  cases action with
  | publish s =>
    obtain ⟨inlet, hi, rfl⟩ := Option.map_eq_some_iff.1 hs
    exact h.publish hi
  | consume now =>
    cases hs
    exact invariant_took (Served.consume h now)
  | resumeConsume call clock a =>
    simp only [Exchange.step] at hs
    split at hs
    · rename_i hc
      split at hs
      · rename_i channel next ha hr
        cases hs
        exact invariant_took ((Served.perm h (custody_taking hc)).resumeConsume ha hr)
      · cases hs
    · cases hs
  | onSuccess m =>
    simp only [Exchange.step] at hs
    split at hs
    · rename_i hm
      cases hs
      exact invariant_settled (Served.perm h (custody_held hm)).onSuccess
    · cases hs
  | onFail m clock retryable cause =>
    simp only [Exchange.step] at hs
    split at hs
    · rename_i hm
      cases hs
      exact invariant_settled ((Served.perm h (custody_held hm)).onFail retryable cause)
    · cases hs
  | resumeSettle call a =>
    simp only [Exchange.step] at hs
    split at hs
    · rename_i hc
      split at hs
      · rename_i channel next ha hr
        cases hs
        exact invariant_settled ((Served.perm h (custody_settling hc)).resumeSettle ha hr)
      · cases hs
    · cases hs

theorem Invariant.run (h : x.Invariant policy) (actions : List Action) :
    (x.run actions).Invariant policy :=
  runSteps_keeps (fun h hs => h.step hs) h actions

theorem invariant_new (policy : RetryPolicy) (capacity pollWindow : Nat) :
    (new policy capacity pollWindow).Invariant policy :=
  Served.new policy capacity pollWindow

/-! ## Accounts -/

/-- What became of the offsets that were read. -/
structure Accounts (policy : RetryPolicy) (x : Exchange) : Prop where
  /-- What was put into the channel was read, or it is still there to be read. -/
  published : x.inlet.published.Perm (x.source.journal.reads ++ x.inlet.channel.queue)
  distinct : (x.source.journal.reads.map (·.offset)).Nodup
  /-- They are held, in the backlog, in the hands of a call or acknowledged. -/
  partition : (x.source.journal.reads.map (·.offset)).Perm
    (x.held.map InFlight.offset ++ (x.source.backlog.messages.map InFlight.offset ++
      (x.underWay.map (·.message.offset) ++ x.inlet.channel.committed)))
  /-- Between calls they are held, in the backlog or acknowledged. -/
  settled : x.taking = [] → x.settling = [] →
    (x.source.journal.reads.map (·.offset)).Perm
      (x.held.map InFlight.offset ++ (x.source.backlog.messages.map InFlight.offset ++
        x.inlet.channel.committed))
  /-- The channel was told once at most to acknowledge one of them. -/
  commits : (x.source.journal.commits.map (·.offset)).Nodup
  /-- One letter at most was sent for one of them. -/
  letters : (x.source.journal.letters.map (·.offset)).Nodup
  /-- None was handed back as processed and dead-lettered as well. -/
  exclusive : ∀ m ∈ x.acknowledged, ∀ l ∈ x.source.journal.letters, l.offset ≠ m.offset
  /-- A message that is held or waits has failed no more often than it may. -/
  tries : ∀ m ∈ x.held ++ x.source.backlog.messages, m.tries ≤ policy.maxRetries

theorem Invariant.partition (h : x.Invariant policy) :
    (x.source.journal.reads.map (·.offset)).Perm
      (x.held.map InFlight.offset ++ (x.source.backlog.messages.map InFlight.offset ++
        (x.underWay.map (·.message.offset) ++ x.inlet.channel.committed))) := by
  have hp := Served.reads_perm h
  rw [custody, List.map_append, List.map_map, List.append_assoc] at hp
  exact hp.trans ((List.perm_append_comm_assoc _ _ _).append_left _)

theorem Invariant.accounts (h : x.Invariant policy) : x.Accounts policy := by
  have hdepart := Served.offsets_nodup h (Ledger.departures_subperm h.ledger)
  rw [List.map_append, List.map_map, List.nodup_append'] at hdepart
  obtain ⟨hletters, -, hdisjoint⟩ := hdepart
  refine ⟨h.inlet.published, Served.reads_nodup h, h.partition, fun ht hs => ?_,
    Served.offsets_nodup h (Ledger.commits_subperm h.ledger), hletters, fun m hm l hl he => ?_,
    fun m hm => ?_⟩
  · have hp := h.partition
    rw [underWay, ht, hs] at hp
    exact hp
  · have hl' : m.offset ∈ x.source.journal.letters.map (·.offset) :=
      he ▸ List.mem_map_of_mem hl
    exact hdisjoint hl' (List.mem_map_of_mem hm)
  · have hheld : (x.held.map Custody.held).filterMap Custody.held? = x.held := by
      rw [List.filterMap_map]
      exact List.filterMap_some
    refine h.ledger.tries m ?_
    rw [custody, List.filterMap_append, hheld, List.append_assoc]
    rcases List.mem_append.1 hm with hm | hm
    · exact List.mem_append_left _ hm
    · exact List.mem_append_right _ (List.mem_append_right _ hm)

/-- Whatever publishers and callers do, in any order, and whatever the sink and the clocks say. -/
theorem run_accounts (policy : RetryPolicy) (capacity pollWindow : Nat) (actions : List Action) :
    ((new policy capacity pollWindow).run actions).Accounts policy :=
  ((invariant_new policy capacity pollWindow).run actions).accounts

end Exchange

end OrderDesk
