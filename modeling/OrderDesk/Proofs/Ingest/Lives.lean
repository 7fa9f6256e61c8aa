import Mathlib.Data.List.Perm.Basic
import OrderDesk.Proofs.Ingest.Ledger

/-!
# The lives of messages

The life of a message is what the journal says about it, from the moment it was read. A transport
may give two messages that look alike, so a life is not what has a certain offset: the journal is
dealt out into lives (`Shuffle`), one for each message that was read.

At any time a message is at a `Place`, and what may happen to it there is a matter of that place
alone (`Place.Leads`). Every call of a source only lets things happen to messages where they are
(`Source.Attends`), from one wait to the next and whatever the transport and the sink say. What
holds of a message all its life then follows by induction on the life.
-/

namespace OrderDesk

/-! ## Shuffles -/

/-- A list is dealt out into lists that keep its order. Additions come first. -/
inductive Shuffle {α : Type} : List (List α) → List α → Prop
  | nil : Shuffle [] []
  | new {ls : List (List α)} {l : List α} (h : Shuffle ls l) (x : α) : Shuffle ([x] :: ls) (x :: l)
  | cons {ls : List (List α)} {l xs : List α} (h : Shuffle (xs :: ls) l) (x : α) :
    Shuffle ((x :: xs) :: ls) (x :: l)
  | perm {ls ls' : List (List α)} {l : List α} (h : Shuffle ls l) (hp : ls.Perm ls') :
    Shuffle ls' l

/-- Every element is dealt out once. -/
theorem Shuffle.perm_flatten {α : Type} {ls : List (List α)} {l : List α} (h : Shuffle ls l) :
    ls.flatten.Perm l := by
  induction h with
  | nil => exact .nil
  | new _ x ih | cons _ x ih => exact ih.cons x
  | perm _ hp ih => exact hp.flatten.symm.trans ih

/-! ## Places -/

/-- Where a message is, from the read to the end of its acknowledgement. -/
inductive Place where
  | arrived (m : RawMessage)
  /-- Somebody has taken it. -/
  | held (q : InFlight Order)
  /-- The processor works on it. -/
  | working (q : InFlight Order)
  | answered (q : InFlight Order) (error : Option OrderError)
  /-- It waits in the backlog. -/
  | waiting (q : InFlight Order)
  /-- The sink has been given its letter. -/
  | burying (l : DeadLetter)
  /-- The sink is done with its letter. -/
  | buried (l : DeadLetter)
  /-- The transport has been asked to acknowledge it. -/
  | committing (m : RawMessage)
  /-- The transport has acknowledged it, or has failed to. -/
  | settled (m : RawMessage)

/-- Where a message is right after an event. -/
def Event.place : Event → Place
  | .read m => .arrived m
  | .offered q _ => .held q
  | .scheduled q _ => .waiting q
  | .sending l => .burying l
  | .sent l _ => .buried l
  | .committing m => .committing m
  | .committed m _ => .settled m
  | .calling q => .working q
  | .answered q error => .answered q error

namespace Place

def message : Place → RawMessage
  | .arrived m | .committing m | .settled m => m
  | .held q | .working q | .answered q _ | .waiting q => q.raw
  | .burying l | .buried l => l.message

/-- The message as it is tried, as long as it may be tried again. -/
def attempt? : Place → Option (InFlight Order)
  | .held q | .working q | .answered q _ | .waiting q => some q
  | _ => none

end Place

/-- The message that an event is about. -/
def Event.message (e : Event) : RawMessage := e.place.message

/-! ## What may happen to a message -/

/-- How a message is handed back by those who have taken it. -/
inductive Outcome where
  | processed
  | failed
  | rejected

/-- A message at a place may be handed back with an outcome. Where the journal is told about the
processor (`noted`), that takes its answer, unless the message is rejected before it gets there. -/
inductive Place.HandsBack : Bool → Place → Outcome → InFlight Order → Prop
  | rejected (noted : Bool) (q : InFlight Order) : HandsBack noted (.held q) .rejected q
  | processed (q : InFlight Order) : HandsBack true (.answered q none) .processed q
  | failed (q : InFlight Order) (e : OrderError) :
    HandsBack true (.answered q (some e)) .failed q
  | unnoted (q : InFlight Order) (outcome : Outcome) : HandsBack false (.held q) outcome q

/-- What may happen to a message at a place. -/
inductive Place.Leads (noted : Bool) (policy : RetryPolicy) : Place → Event → Prop
  | offer (m : RawMessage) (o : Order) (now : Time) (payload : Order.ofBytes m.payload = .ok o) :
    Leads noted policy (.arrived m) (.offered (.fresh m o) now)
  | refuse (l : DeadLetter) : Leads noted policy (.arrived l.message) (.sending l)
  | again (q : InFlight Order) (now : Time) (due : q.isEligible now) :
    Leads noted policy (.waiting q) (.offered q now)
  | call (q : InFlight Order) : Leads noted policy (.held q) (.calling q)
  | answer (q : InFlight Order) (error : Option OrderError) :
    Leads noted policy (.working q) (.answered q error)
  | acknowledge (x : Place) (q : InFlight Order) (back : x.HandsBack noted .processed q) :
    Leads noted policy x (.committing q.raw)
  | postpone (x : Place) (q : InFlight Order) (now : Time) (back : x.HandsBack noted .failed q)
    (tries : q.tries + 1 ≤ policy.maxRetries) :
    Leads noted policy x (.scheduled (q.retry now policy.backoff) now)
  | bury (x : Place) (outcome : Outcome) (q : InFlight Order) (l : DeadLetter)
    (back : x.HandsBack noted outcome q) (unprocessed : outcome ≠ .processed)
    (about : l.message = q.raw) : Leads noted policy x (.sending l)
  | sent (l : DeadLetter) (error : Option IngestError) :
    Leads noted policy (.burying l) (.sent l error)
  | commit (l : DeadLetter) : Leads noted policy (.buried l) (.committing l.message)
  | committed (m : RawMessage) (error : Option TransportError) :
    Leads noted policy (.committing m) (.committed m error)

/-- The events, the latest first, led a message from its read to a place. -/
inductive Journal.Life (noted : Bool) (policy : RetryPolicy) (m : RawMessage) :
    Place → Journal → Prop
  | read : Life noted policy m (.arrived m) [.read m]
  | next {x : Place} {l : Journal} {e : Event} (h : Life noted policy m x l)
    (leads : x.Leads noted policy e) : Life noted policy m e.place (e :: l)

section
variable {noted : Bool} {policy : RetryPolicy} {m : RawMessage} {x : Place} {e : Event}
  {l earlier later : Journal} {outcome : Outcome} {q : InFlight Order}

/-- A message is handed back from where it is tried. -/
theorem Place.HandsBack.attempt? (h : x.HandsBack noted outcome q) : x.attempt? = some q := by
  cases h <;> rfl

theorem Place.HandsBack.message (h : x.HandsBack noted outcome q) : x.message = q.raw := by
  cases h <;> rfl

/-- Whatever happens to a message, it is the same one. -/
theorem Place.Leads.message (h : x.Leads noted policy e) : e.message = x.message := by
  cases h with
  | acknowledge x q back => exact back.message.symm
  | postpone x q now back tries => exact back.message.symm
  | bury x outcome q l back _ about => exact about.trans back.message.symm
  | _ => rfl

/-- A message is read before anything else happens to it. -/
theorem Place.Leads.read?_eq_none (h : x.Leads noted policy e) : e.read? = none := by
  cases h <;> rfl

/-- What is told of a message that is now at a place is about that message alone, from its read to
the event that has put it there. -/
structure Lived (m : RawMessage) (x : Place) (life : Journal) : Prop where
  /-- It begins with the read, and the message was not read again. -/
  born : ∃ later : Journal, life = later ++ [.read m] ∧ later.reads = []
  about : ∀ e ∈ life, e.message = m
  last : life.head?.map Event.place = some x

namespace Journal.Life

/-- A life tells of the last event how the message came to its place. -/
theorem exists_eq_cons (h : Life noted policy m x l) :
    ∃ e earlier, l = e :: earlier ∧ x = e.place := by
  cases h with
  | read => exact ⟨_, [], rfl, rfl⟩
  | next h leads => exact ⟨_, _, rfl, rfl⟩

/-- The last event was the read, or it happened where the message was then. -/
theorem cons_cases (h : Life noted policy m x (e :: l)) :
    (e = .read m ∧ l = []) ∨ ∃ y, Life noted policy m y l ∧ y.Leads noted policy e := by
  cases h with
  | read => exact .inl ⟨rfl, rfl⟩
  | next h leads => exact .inr ⟨_, h, leads⟩

/-- What was told up to some event is a life as well. -/
theorem of_append (h : Life noted policy m x (later ++ e :: earlier)) :
    Life noted policy m e.place (e :: earlier) := by
  induction later generalizing x with
  | nil =>
    obtain ⟨e', l, hl, rfl⟩ := h.exists_eq_cons
    obtain ⟨rfl, -⟩ := List.cons_eq_cons.1 hl
    exact h
  | cons e' later ih =>
    obtain ⟨-, hnil⟩ | ⟨y, h, -⟩ := h.cons_cases
    · exact absurd hnil (List.append_ne_nil_of_right_ne_nil _ (List.cons_ne_nil _ _))
    · exact ih h

theorem message (h : Life noted policy m x l) : x.message = m := by
  induction h with
  | read => rfl
  | next h leads ih => exact leads.message.trans ih

/-- All that is told in a life is about its message. -/
theorem message_of_mem (h : Life noted policy m x l) (he : e ∈ l) : e.message = m := by
  obtain ⟨later, earlier, rfl⟩ := List.append_of_mem he
  exact h.of_append.message

theorem lived (h : Life noted policy m x l) : Lived m x l := by
  refine ⟨?_, fun e he => h.message_of_mem he, ?_⟩
  · induction h with
    | read => exact ⟨[], rfl, rfl⟩
    | next h leads ih =>
      obtain ⟨later, rfl, hlater⟩ := ih
      refine ⟨_ :: later, rfl, ?_⟩
      rw [reads, List.filterMap_cons_none leads.read?_eq_none]
      exact hlater
  · obtain ⟨e, earlier, rfl, rfl⟩ := h.exists_eq_cons
    rfl

/-- The message of a life was read once. -/
theorem reads (h : Life noted policy m x l) : l.reads = [m] := by
  obtain ⟨later, rfl, hlater⟩ := h.lived.born
  rw [Journal.reads, List.filterMap_append]
  exact congrArg (· ++ [m]) hlater

/-- A message that is tried has the value that its payload was decoded to. -/
theorem decoded (h : Life noted policy m x l) (hq : x.attempt? = some q) :
    Order.ofBytes m.payload = .ok q.value := by
  induction h generalizing q with
  | read => cases hq
  | next h leads ih =>
    cases leads with
    | offer m' o now payload =>
      cases hq
      rw [← h.message]
      exact payload
    | again q' now due | call q' | answer q' error =>
      cases hq
      exact ih rfl
    | postpone x q' now back tries =>
      cases hq
      exact ih (q := q') back.attempt?
    | _ => cases hq

/-- Every attempt is one at the value that the payload was decoded to. -/
theorem decoded_of_mem (h : Life noted policy m x l) (he : e ∈ l)
    (hq : e.place.attempt? = some q) : Order.ofBytes m.payload = .ok q.value := by
  obtain ⟨later, earlier, rfl⟩ := List.append_of_mem he
  exact h.of_append.decoded hq

end Journal.Life

end

/-! ## The messages of a journal -/

/-- The journal is dealt out into the lives of messages that are now at these places. -/
def Journal.Houses (noted : Bool) (policy : RetryPolicy) (j : Journal) (places : List Place) :
    Prop :=
  ∃ lives, Shuffle lives j ∧
    List.Forall₂ (fun x l => ∃ m, Life noted policy m x l) places lives

namespace Journal.Houses

variable {noted : Bool} {policy : RetryPolicy} {j : Journal} {x : Place} {e : Event}
  {xs xs' : List Place}

theorem nil (noted : Bool) (policy : RetryPolicy) : Houses noted policy [] [] :=
  ⟨[], .nil, .nil⟩

theorem perm (h : Houses noted policy j xs) (hp : xs.Perm xs') : Houses noted policy j xs' := by
  obtain ⟨lives, hs, hl⟩ := h
  obtain ⟨lives', hl', hp'⟩ := List.perm_comp_forall₂ hp.symm hl
  exact ⟨lives', hs.perm hp'.symm, hl'⟩

theorem read (h : Houses noted policy j xs) (m : RawMessage) :
    Houses noted policy (.read m :: j) (.arrived m :: xs) := by
  obtain ⟨lives, hs, hl⟩ := h
  exact ⟨_, hs.new (.read m), .cons ⟨m, .read⟩ hl⟩

/-- Every event is part of a life. -/
theorem exists_life (h : Houses noted policy j xs) (he : e ∈ j) :
    ∃ m x l, Life noted policy m x l ∧ e ∈ l := by
  obtain ⟨lives, hs, hl⟩ := h
  obtain ⟨l, hmem, hel⟩ := List.mem_flatten.1 (hs.perm_flatten.mem_iff.2 he)
  clear hs
  induction hl with
  | nil => cases hmem
  | cons hlife _ ih =>
    rcases List.mem_cons.1 hmem with rfl | hmem
    · obtain ⟨m, hm⟩ := hlife
      exact ⟨m, _, l, hm, hel⟩
    · exact ih hmem

/-- Every message that was read is at one of the places. -/
theorem reads_perm (h : Houses noted policy j xs) : j.reads.Perm (xs.map Place.message) := by
  obtain ⟨lives, hs, hl⟩ := h
  have hreads : lives.flatMap Journal.reads = xs.map Place.message := by
    clear hs
    induction hl with
    | nil => rfl
    | cons hlife _ ih =>
      obtain ⟨m, hm⟩ := hlife
      rw [List.flatMap_cons, ih, List.map_cons, hm.reads, hm.message]
      rfl
  have hj := hs.perm_flatten.filterMap Event.read?
  rw [List.filterMap_flatten] at hj
  exact hj.symm.trans (.of_eq hreads)

/-- Something has happened to the first of the messages. -/
theorem next (h : Houses noted policy j (x :: xs)) (hx : x.Leads noted policy e) :
    Houses noted policy (e :: j) (e.place :: xs) := by
  obtain ⟨lives, hs, hl⟩ := h
  cases hl with
  | cons hx' hl =>
    obtain ⟨m, hm⟩ := hx'
    exact ⟨_, hs.cons e, .cons ⟨m, hm.next hx⟩ hl⟩

end Journal.Houses

/-! ## The calls of a source -/

def Burial.place : Burial → Place
  | .toSink l => .burying l
  | .toCommit l => .committing l.message

def Custody.place : Custody → Place
  | .held q => .held q
  | .settling (.acknowledging m) => .committing m
  | .settling (.burying b) => b.place

namespace Source

/-- The places of the messages that are not with those who take them. -/
def places (s : Source) : List Place :=
  s.backlog.messages.map .waiting ++ s.journal.settled.map .settled

/-- The journal of a source tells the lives of its messages: of those at the places `xs`, of those
in the backlog and of the settled ones. -/
structure Attends (noted : Bool) (policy : RetryPolicy) (s : Source) (xs : List Place) :
    Prop where
  kept : s.policy = policy
  housed : s.journal.Houses noted policy (xs ++ s.places)
  /-- The backlog goes by the deadlines of its messages. -/
  deadlines : ∀ t ∈ s.backlog.waiting, t.message.retryAfter = some t.due

namespace Attends

variable {noted : Bool} {policy : RetryPolicy} {s s' : Source} {x : Place} {xs xs' : List Place}
  {clock : Clock} {a : Answer} {q : InFlight Order} {outcome : Outcome} {e : Event}

theorem new (noted : Bool) (policy : RetryPolicy) : (Source.new policy).Attends noted policy [] :=
  ⟨rfl, .nil noted policy, fun _ h => nomatch h⟩

theorem perm (h : s.Attends noted policy xs) (hp : xs.Perm xs') : s.Attends noted policy xs' :=
  ⟨h.kept, h.housed.perm (hp.append_right _), h.deadlines⟩

/-- Something has happened to the first of the messages, which stays outside the backlog and is not
settled. -/
theorem next (h : s.Attends noted policy (x :: xs)) (hx : x.Leads noted policy e)
    (hsettled : e.committed? = none) : (s.record e).Attends noted policy (e.place :: xs) := by
  refine ⟨h.kept, ?_, h.deadlines⟩
  have hplaces : (s.record e).places = s.places := by
    rw [places, Journal.settled, record, List.filterMap_cons_none hsettled]
    rfl
  rw [hplaces]
  exact h.housed.next hx

/-- The transport is done with the first of the messages. -/
theorem settle {m : RawMessage} (h : s.Attends noted policy (.committing m :: xs))
    (error : Option TransportError) : (s.record (.committed m error)).Attends noted policy xs := by
  refine ⟨h.kept, ?_, h.deadlines⟩
  have hplaces : (xs ++ (s.record (.committed m error)).places).Perm
      (.settled m :: (xs ++ s.places)) := by
    unfold places
    rw [← List.append_assoc, ← List.append_assoc]
    exact List.perm_middle
  exact (h.housed.next (.committed m error)).perm hplaces.symm

/-! ### Taking messages -/

theorem consume (h : s.Attends noted policy xs) (now : Time) :
    (s.consume now).1.Attends noted policy
      ((Custody.ofConsume (s.consume now).2).map Custody.place ++ xs) := by
  unfold Source.consume
  split
  · rename_i q backlog hpop
    obtain ⟨t, rest, hwaiting, hdue, rfl, rfl⟩ := Backlog.popEligible_eq_some hpop
    have hretry : t.message.retryAfter = some t.due :=
      h.deadlines t (hwaiting ▸ List.mem_cons_self)
    have heligible : t.message.isEligible now := by
      rw [InFlight.isEligible, hretry]
      exact decide_eq_true hdue
    have hhoused := h.housed
    rw [places, Backlog.messages, hwaiting] at hhoused
    refine ⟨h.kept, (hhoused.perm List.perm_middle).next (.again _ now heligible), ?_⟩
    intro t' ht'
    exact h.deadlines t' (hwaiting ▸ List.mem_cons_of_mem _ ht')
  · exact h

/-- A burial goes on, whatever the sink and the transport say. -/
theorem resumeBurial {b : Burial} {p : Progress Burial (Option TransportError)}
    (h : s.Attends noted policy (b.place :: xs)) (hb : b.resume s a = some (s', p)) :
    s'.Attends noted policy ((Custody.ofBurial p).map Custody.place ++ xs) := by
  cases b with
  | toSink l =>
    cases a <;> cases hb
    exact (h.next (.sent l _) rfl).next (.commit l) rfl
  | toCommit l =>
    cases a <;> cases hb
    exact h.settle _

/-- A message has come from the transport, and is handed out or refused. -/
theorem receive (h : s.Attends noted policy xs) (m : RawMessage) :
    (Consume.receive s clock m).1.Attends noted policy
      ((Custody.ofConsume (Consume.receive s clock m).2).map Custody.place ++ xs) := by
  have hread : (s.record (.read m)).Attends noted policy (.arrived m :: xs) :=
    ⟨h.kept, h.housed.read m, h.deadlines⟩
  unfold Consume.receive
  split
  · rename_i o hpayload
    exact hread.next (.offer m o clock.now hpayload) rfl
  · exact hread.next (.refuse (m.letter ..)) rfl

/-- A call that takes a message goes on, whatever it is told. -/
theorem resumeConsume {call : Consume} {p : Progress Consume Consumed}
    (h : s.Attends noted policy (call.custody.map Custody.place ++ xs))
    (hc : call.resume s clock a = some (s', p)) :
    s'.Attends noted policy ((Custody.ofConsume p).map Custody.place ++ xs) := by
  cases call with
  | reading since =>
    cases a with
    | message m =>
      obtain ⟨rfl, rfl⟩ := Prod.mk.inj (Option.some.inj hc)
      exact h.receive m
    | nothing =>
      cases hc
      exact h
    | readFailed e =>
      cases e with
      | closed =>
        cases hc
        unfold Consume.finish
        split <;> exact h
      | _ =>
        cases hc
        exact h
    | _ => cases hc
  | resting till =>
    cases a with
    | due =>
      simp only [Consume.resume] at hc
      split at hc <;> cases hc
      exact h
    | _ => cases hc
  | refusing b error =>
    obtain ⟨q, hb, he⟩ := Consume.resume_refusing hc
    rw [he]
    exact h.resumeBurial hb

/-! ### Settling messages -/

theorem onSuccess (h : s.Attends noted policy (x :: xs)) (hx : x.HandsBack noted .processed q) :
    (s.onSuccess q).1.Attends noted policy
      (Custody.place (.settling (s.onSuccess q).2) :: xs) :=
  h.next (.acknowledge x q hx) rfl

theorem bury (h : s.Attends noted policy (x :: xs)) (hx : x.HandsBack noted outcome q)
    (hne : outcome ≠ .processed) (tries : Nat) (reason : DeadLetterReason) (cause : String) :
    (s.bury clock q tries reason cause).1.Attends noted policy
      ((Custody.ofSettle (s.bury clock q tries reason cause).2).map Custody.place ++ xs) :=
  h.next (.bury x outcome q (q.raw.letter clock.wall tries reason cause) hx hne rfl) rfl

/-- A failed message waits for its next attempt. -/
theorem postpone (h : s.Attends noted policy (x :: xs)) (hx : x.HandsBack noted .failed q)
    (htries : q.tries + 1 ≤ policy.maxRetries) {now : Time} {backlog : Backlog Order}
    (hpush : s.backlog.push now (q.retry now policy.backoff) = some backlog) :
    (({ s with backlog }).record (.scheduled (q.retry now policy.backoff) now)).Attends
      noted policy xs := by
  have hmessages := Backlog.messages_push hpush
  refine ⟨h.kept, ?_, ?_⟩
  · have hplaces : (xs ++ ({ s with backlog }.places)).Perm
        (.waiting (q.retry now policy.backoff) :: (xs ++ s.places)) :=
      (((hmessages.map Place.waiting).append_right _).append_left xs).trans List.perm_middle
    exact (h.housed.next (.postpone x q now hx htries)).perm hplaces.symm
  · intro t ht
    obtain ⟨-, rfl⟩ := Backlog.push_eq_some hpush
    rcases List.mem_cons.1 ((Backlog.insertSorted_perm _ _).mem_iff.1 ht) with rfl | ht
    · rfl
    · exact h.deadlines t ht

/-- A message is handed back as failed: it waits for its next attempt or is dead-lettered. -/
theorem onFail (h : s.Attends noted policy (x :: xs)) (retryable : Bool)
    (hx : x.HandsBack noted (if retryable then .failed else .rejected) q) (cause : String) :
    (s.onFail clock q retryable cause).1.Attends noted policy
      ((Custody.ofSettle (s.onFail clock q retryable cause).2).map Custody.place ++ xs) := by
  obtain rfl := h.kept
  cases retryable with
  | false => exact h.bury hx nofun q.tries .invalid cause
  | true =>
    simp only [Source.onFail, Bool.not_true, Bool.false_eq_true, if_false]
    split
    · exact h.bury hx nofun (q.tries + 1) .maxRetriesExceeded cause
    rename_i htries
    split
    · rename_i backlog hpush
      exact h.postpone hx (Nat.le_of_not_lt htries) hpush
    · exact h.next (.bury x .failed q _ hx nofun rfl) rfl

theorem resumeSettle {call : Settle} {p : Progress Settle Settled}
    (h : s.Attends noted policy (Custody.place (.settling call) :: xs))
    (hc : call.resume s a = some (s', p)) :
    s'.Attends noted policy ((Custody.ofSettle p).map Custody.place ++ xs) := by
  cases call with
  | acknowledging m =>
    cases a <;> cases hc
    exact h.settle _
  | burying b =>
    obtain ⟨q, hb, he⟩ := Settle.resume_burying hc
    rw [he]
    exact h.resumeBurial hb

end Attends

end Source

end OrderDesk
