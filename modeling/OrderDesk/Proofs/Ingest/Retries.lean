import OrderDesk.Proofs.Ingest.Lives
import OrderDesk.Proofs.Ingest.Moves

/-!
# How failed messages are tried again

Callers take messages from a source and hand each of them back once, in calls that interleave in any
way, while the transport and the sink say whatever they like. The clock does not go back
(`Crew.step`).

A backlog keeps its messages by their deadlines. All of them are put off for the same time, so the
one that failed last comes last (`Backlog.Queued.push`) and the backlog is a queue: the failed
messages are offered again in the order of their failures, each when it is due, and before any
message of the transport (`Crew.run_disciplined`). How often a message is tried can be told from its
life (`Journal.Life.attempts`).
-/

namespace OrderDesk

/-! ## Attempts -/

namespace Event

/-- The message that is handed out. -/
def offered? : Event → Option (InFlight Order)
  | .offered q _ => some q
  | _ => none

/-- The message that is handed out again. -/
def retried? : Event → Option (InFlight Order)
  | .offered q _ => if q.tries = 0 then none else some q
  | _ => none

/-- The message that is put off, and when. -/
def scheduled? : Event → Option (InFlight Order × Time)
  | .scheduled q now => some (q, now)
  | _ => none

end Event

namespace Journal

def offers (j : Journal) : List (InFlight Order) := j.filterMap Event.offered?

def retried (j : Journal) : List (InFlight Order) := j.filterMap Event.retried?

def scheduled (j : Journal) : List (InFlight Order × Time) := j.filterMap Event.scheduled?

end Journal

/-- How many attempts there were, as far as the place tells. -/
def Place.attempts? : Place → Option Nat
  | .arrived _ => some 0
  | .held q | .working q | .answered q _ => some (q.tries + 1)
  | .waiting q => some q.tries
  | _ => none

section
variable {noted : Bool} {policy : RetryPolicy} {m : RawMessage} {x : Place} {l : Journal}
  {outcome : Outcome} {q : InFlight Order}

theorem Place.HandsBack.attempts? (h : x.HandsBack noted outcome q) :
    x.attempts? = some (q.tries + 1) := by
  cases h <;> rfl

namespace Journal.Life

/-- A message that waits was put off when its last attempt had failed. -/
theorem exists_eq_scheduled (h : Life noted policy m (.waiting q) l) :
    ∃ t rest, l = .scheduled q t :: rest ∧ q.retryAfter = some (t + policy.backoff) ∧
      q.tries ≤ policy.maxRetries := by
  obtain ⟨e, rest, rfl, he⟩ := h.exists_eq_cons
  cases e <;> cases he
  rename_i t
  obtain ⟨hread, -⟩ | ⟨y, -, leads⟩ := h.cons_cases
  · cases hread
  · cases leads with
    | postpone y q t back tries => exact ⟨t, rest, rfl, rfl, tries⟩

/-- The attempts at a message are numbered, and there are no more of them than the policy allows. -/
theorem attempts (h : Life noted policy m x l) : ∃ n ≤ policy.maxRetries + 1,
    l.offers.reverse.map (·.tries) = List.range n ∧ ∀ k, x.attempts? = some k → k = n := by
  induction h with
  | read => exact ⟨0, Nat.zero_le _, rfl, fun k hk => (Option.some.inj hk).symm⟩
  | @next x l e h leads ih =>
    obtain ⟨n, hn, hl, hk⟩ := ih
    -- An offer is the attempt that the place before it tells of.
    have hoffer : ∀ q now, e = .offered q now → q.tries = n → q.tries ≤ policy.maxRetries →
        ∃ n ≤ policy.maxRetries + 1,
          (Journal.offers (e :: l)).reverse.map (·.tries) = List.range n ∧
            ∀ k, e.place.attempts? = some k → k = n := by
      rintro q now rfl rfl hle
      refine ⟨q.tries + 1, Nat.succ_le_succ hle, ?_, fun k hk => (Option.some.inj hk).symm⟩
      have hcons : Journal.offers (.offered q now :: l) = q :: l.offers := rfl
      rw [hcons, List.reverse_cons, List.map_append, hl, List.range_succ]
      rfl
    cases leads with
    | offer m o now payload => exact hoffer _ now rfl (hk 0 rfl) (Nat.zero_le _)
    | again q now due =>
      obtain ⟨t, rest, -, -, htries⟩ := h.exists_eq_scheduled
      exact hoffer q now rfl (hk q.tries rfl) htries
    | postpone x q now back tries =>
      refine ⟨n, hn, hl, ?_⟩
      intro k h
      rw [← Option.some.inj h]
      exact hk _ back.attempts?
    | call q | answer q error => exact ⟨n, hn, hl, hk⟩
    | _ => exact ⟨n, hn, hl, nofun⟩

end Journal.Life

end

/-! ## The backlog as a queue -/

namespace Backlog

variable {α : Type} {b b' : Backlog α} {m : InFlight α} {now due room last last' : Nat}

/-- The messages come by their deadlines, none of which is later than `last`, and there are no more
of them than there is room for. -/
structure Queued (b : Backlog α) (room : Nat) (last : Time) : Prop where
  sorted : b.waiting.Pairwise fun s t => s.due ≤ t.due
  bounded : ∀ t ∈ b.waiting, t.due ≤ last
  numbered : ∀ t ∈ b.waiting, t.seq < b.nextSeq
  capacity : b.capacity = room
  size : b.size ≤ room

theorem Queued.new (room : Nat) (last : Time) : (empty room : Backlog α).Queued room last :=
  ⟨.nil, nofun, nofun, rfl, Nat.zero_le _⟩

theorem Queued.mono (h : b.Queued room last) (hle : last ≤ last') : b.Queued room last' :=
  { h with bounded := fun t ht => Nat.le_trans (h.bounded t ht) hle }

/-- What comes before nothing is put at the end. -/
theorem insertSorted_eq_append {s : Scheduled α} {l : List (Scheduled α)}
    (h : ∀ t ∈ l, s.before t = false) : insertSorted s l = l ++ [s] := by
  induction l with
  | nil => rfl
  | cons t l ih =>
    rw [insertSorted, h t List.mem_cons_self, ih fun t ht => h t (List.mem_cons_of_mem _ ht)]
    rfl

/-- A message that is due last comes last. -/
theorem Queued.push (h : b.Queued room last) (hdue : m.retryAfter = some due)
    (hle : last ≤ due) (hp : b.push now m = some b') :
    b'.Queued room due ∧ b'.messages = b.messages ++ [m] := by
  obtain ⟨hsize, rfl⟩ := push_eq_some hp
  rw [h.capacity] at hsize
  have hlast : ∀ t ∈ b.waiting, t.due ≤ due := fun t ht => Nat.le_trans (h.bounded t ht) hle
  rw [hdue, Option.getD_some, insertSorted_eq_append]
  · refine ⟨⟨?_, ?_, ?_, h.capacity, ?_⟩, ?_⟩
    · refine List.pairwise_append.2 ⟨h.sorted, List.pairwise_singleton _ _, ?_⟩
      intro t ht s hs
      rw [List.eq_of_mem_singleton hs]
      exact hlast t ht
    · intro t ht
      rcases List.mem_append.1 ht with ht | ht
      · exact hlast t ht
      · obtain rfl := List.eq_of_mem_singleton ht
        exact Nat.le_refl due
    · intro t ht
      rcases List.mem_append.1 ht with ht | ht
      · exact Nat.lt_succ_of_lt (h.numbered t ht)
      · rw [List.eq_of_mem_singleton ht]
        exact Nat.lt_succ_self _
    · rw [Backlog.size, List.length_append]
      exact hsize
    · rw [messages, List.map_append]
      rfl
  · intro t ht
    have hdue : ¬due < t.due := Nat.not_lt.2 (hlast t ht)
    have hseq : ¬b.nextSeq < t.seq := Nat.not_lt.2 (Nat.le_of_lt (h.numbered t ht))
    rw [Scheduled.before, decide_eq_false hdue, decide_eq_false hseq, Bool.and_false]
    rfl

theorem Queued.popEligible (h : b.Queued room last) (hp : b.popEligible now = some (m, b')) :
    b'.Queued room last := by
  obtain ⟨s, rest, hw, -, -, rfl⟩ := popEligible_eq_some hp
  have hmem : ∀ t ∈ rest, t ∈ b.waiting := fun t ht => hw ▸ List.mem_cons_of_mem _ ht
  have hsize := h.size
  rw [Backlog.size, hw, List.length_cons] at hsize
  have hsorted := h.sorted
  rw [hw] at hsorted
  exact ⟨hsorted.of_cons, fun t ht => h.bounded t (hmem t ht), fun t ht => h.numbered t (hmem t ht),
    h.capacity, Nat.le_of_succ_le hsize⟩

/-- Where the first message is not due, none is. -/
theorem Queued.lt_of_popEligible_eq_none (h : b.Queued room last)
    (hp : b.popEligible now = none) : ∀ t ∈ b.waiting, now < t.due := by
  intro t ht
  unfold Backlog.popEligible at hp
  split at hp
  · rename_i hw
    rw [hw] at ht
    cases ht
  rename_i s rest hw
  split at hp
  · cases hp
  rename_i hdue
  have hsorted := h.sorted
  rw [hw, List.pairwise_cons] at hsorted
  rw [hw] at ht
  rcases List.mem_cons.1 ht with rfl | ht
  · exact Nat.lt_of_not_le hdue
  · exact Nat.lt_of_lt_of_le (Nat.lt_of_not_le hdue) (hsorted.1 t ht)

end Backlog

/-! ## Calls that go on

They leave the backlog as it is, and do not ask the transport for a message again. -/

namespace Source

/-- Nothing came to the backlog or left it. -/
def KeepsBacklog (s s' : Source) : Prop :=
  ∃ events : Journal, (∀ e ∈ events, Journal.movesBacklog e = false) ∧
    s' = { s with journal := events ++ s.journal }

variable {s s' : Source} {clock : Clock} {a : Answer}

theorem KeepsBacklog.refl (s : Source) : s.KeepsBacklog s := ⟨[], fun _ h => (nomatch h), rfl⟩

theorem keepsBacklog_record (s : Source) {e : Event} (h : Journal.movesBacklog e = false) :
    s.KeepsBacklog (s.record e) :=
  ⟨[e], fun _ he => List.eq_of_mem_singleton he ▸ h, rfl⟩

theorem Rests.keepsBacklog (h : s.Rests s') : s.KeepsBacklog s' := by
  obtain ⟨events, hquiet, rfl⟩ := h
  refine ⟨events, ?_, rfl⟩
  intro e he
  have hq := hquiet e he
  cases e <;> first | rfl | cases hq

theorem keepsBacklog_receive (s : Source) (clock : Clock) (m : RawMessage) :
    s.KeepsBacklog (Consume.receive s clock m).1 := by
  unfold Consume.receive
  split
  · refine ⟨[.offered _ _, .read m], ?_, rfl⟩
    rintro e (_ | ⟨_, _ | ⟨_, he⟩⟩)
    · rfl
    · rfl
    · cases he
  · refine ⟨[.sending _, .read m], ?_, rfl⟩
    rintro e (_ | ⟨_, _ | ⟨_, he⟩⟩)
    · rfl
    · rfl
    · cases he

theorem keepsBacklog_resume {call : Consume} {p : Progress Consume Consumed}
    (h : call.resume s clock a = some (s', p)) : s.KeepsBacklog s' := by
  cases call with
  | reading since =>
    cases a with
    | message m =>
      obtain ⟨rfl, -⟩ := Prod.mk.inj (Option.some.inj h)
      exact keepsBacklog_receive s clock m
    | readFailed e => cases e <;> cases h <;> exact .refl s
    | _ => cases h <;> exact .refl s
  | resting till =>
    cases a with
    | due =>
      simp only [Consume.resume] at h
      split at h <;> cases h
      exact .refl s
    | _ => cases h
  | refusing b error =>
    obtain ⟨q, hb, -⟩ := Consume.resume_refusing h
    exact (Burial.rests_resume hb).keepsBacklog

end Source

/-- A call that goes on does not ask the transport for a message: it has asked already. -/
theorem Consume.resume_ne_reading {s s' : Source} {clock : Clock} {a : Answer} {call : Consume}
    {p : Progress Consume Consumed} (h : call.resume s clock a = some (s', p)) (since : Time) :
    p ≠ .waits (.reading since) := by
  rintro rfl
  cases call with
  | reading t =>
    cases a with
    | message m =>
      obtain ⟨-, hr⟩ := Prod.mk.inj (Option.some.inj h)
      split at hr <;> cases hr
    | readFailed e =>
      cases e with
      | closed =>
        obtain ⟨-, hr⟩ := Prod.mk.inj (Option.some.inj h)
        rw [finish] at hr
        split at hr <;> cases hr
      | _ => cases h
    | _ => cases h
  | resting till =>
    cases a <;> try cases h
    simp only [resume] at h
    split at h <;> cases h
  | refusing b error =>
    simp only [resume] at h
    split at h <;> cases h

/-! ## Callers -/

/-- What a caller has in hand. -/
inductive Hand where
  /-- A message that was taken and not handed back. -/
  | held (q : InFlight Order)
  /-- A call that takes a message and has not returned. -/
  | taking (call : Consume)
  /-- A call that settles a message and has not returned. -/
  | settling (call : Settle)
  deriving DecidableEq

namespace Hand

def places : Hand → List Place
  | .held q => [.held q]
  | .taking call => call.custody.map Custody.place
  | .settling call => [Custody.place (.settling call)]

def ofConsume : Progress Consume Consumed → List Hand
  | .waits call => [.taking call]
  | .returns (.message q) => [.held q]
  | .returns _ => []

def ofSettle : Progress Settle Settled → List Hand
  | .waits call => [.settling call]
  | .returns _ => []

theorem places_ofConsume (p : Progress Consume Consumed) :
    (ofConsume p).flatMap places = (Custody.ofConsume p).map Custody.place := by
  cases p with
  | waits call => exact List.append_nil _
  | returns r => cases r <;> rfl

theorem places_ofSettle (p : Progress Settle Settled) :
    (ofSettle p).flatMap places = (Custody.ofSettle p).map Custody.place := by
  cases p <;> rfl

end Hand

/-- What a call reported that has put a message off. -/
structure Report where
  /-- The message that was handed back. -/
  message : InFlight Order
  /-- The moment of the call. -/
  time : Time
  tries : Nat
  due : Time

namespace Report

/-- What a call reports that was given a message at a moment. -/
def ofSettle (q : InFlight Order) (now : Time) : Progress Settle Settled → List Report
  | .returns (.retried tries due) => [{ message := q, time := now, tries, due }]
  | _ => []

/-- The message as it waits for its next attempt. -/
def retried (r : Report) (policy : RetryPolicy) : InFlight Order :=
  r.message.retry r.time policy.backoff

/-- It tells the attempts and the deadline of the message as it waits. -/
structure Accurate (policy : RetryPolicy) (r : Report) : Prop where
  tries : r.tries = (r.retried policy).tries
  due : (r.retried policy).retryAfter = some r.due
  backoff : r.due = r.time + policy.backoff
  allowed : r.tries ≤ policy.maxRetries

end Report

/-- A failed message is put off, which is reported, or it does not get into the backlog. -/
theorem Source.onFail_reports (s : Source) (clock : Clock) (q : InFlight Order) (retryable : Bool)
    (cause : String) :
    (s.KeepsBacklog (s.onFail clock q retryable cause).1 ∧
      Report.ofSettle q clock.now (s.onFail clock q retryable cause).2 = []) ∨
    (q.tries + 1 ≤ s.policy.maxRetries ∧ ∃ backlog,
      s.backlog.push clock.now (q.retry clock.now s.policy.backoff) = some backlog ∧
      s.onFail clock q retryable cause =
        (({ s with backlog }).record (.scheduled (q.retry clock.now s.policy.backoff) clock.now),
          .returns (.retried (q.tries + 1) (clock.now + s.policy.backoff)))) := by
  unfold Source.onFail
  split
  · exact .inl ⟨keepsBacklog_record s rfl, rfl⟩
  split
  · exact .inl ⟨keepsBacklog_record s rfl, rfl⟩
  rename_i htries
  dsimp only
  split
  · rename_i backlog hpush
    exact .inr ⟨Nat.le_of_not_lt htries, backlog, hpush, rfl⟩
  · exact .inl ⟨keepsBacklog_record s rfl, rfl⟩

/-- A source with its callers. -/
structure Crew where
  source : Source
  /-- The latest moment that a call has seen. -/
  now : Time
  hands : List Hand
  /-- What was reported of messages that were put off, the latest first. -/
  reports : List Report

namespace Crew

inductive Action where
  | consume (now : Time)
  /-- A call that takes a message is told something and goes on. -/
  | resumeConsume (call : Consume) (clock : Clock) (a : Answer)
  | onSuccess (q : InFlight Order)
  | onFail (q : InFlight Order) (clock : Clock) (retryable : Bool) (cause : String)
  /-- A call that settles a message is told something and goes on. -/
  | resumeSettle (call : Settle) (a : Answer)

def new (policy : RetryPolicy) (now : Time) : Crew where
  source := .new policy
  now
  hands := []
  reports := []

/-- One step of a caller; `none` if nobody can take it. The clock does not go back. -/
def step (x : Crew) : Action → Option Crew
  | .consume now =>
    if x.now ≤ now then
      let (source, p) := x.source.consume now
      some { x with source, now, hands := Hand.ofConsume p ++ x.hands }
    else none
  | .resumeConsume call clock a =>
    if x.now ≤ clock.now ∧ .taking call ∈ x.hands then
      (call.resume x.source clock a).map fun (source, p) =>
        let hands := Hand.ofConsume p ++ x.hands.erase (.taking call)
        { x with source, now := clock.now, hands }
    else none
  | .onSuccess q =>
    if .held q ∈ x.hands then
      let (source, call) := x.source.onSuccess q
      some { x with source, hands := .settling call :: x.hands.erase (.held q) }
    else none
  | .onFail q clock retryable cause =>
    if x.now ≤ clock.now ∧ .held q ∈ x.hands then
      let (source, p) := x.source.onFail clock q retryable cause
      let hands := Hand.ofSettle p ++ x.hands.erase (.held q)
      let reports := Report.ofSettle q clock.now p ++ x.reports
      some { source, now := clock.now, hands, reports }
    else none
  | .resumeSettle call a =>
    if .settling call ∈ x.hands then
      (call.resume x.source a).map fun (source, p) =>
        { x with source, hands := Hand.ofSettle p ++ x.hands.erase (.settling call) }
    else none

/-- The actions in this order; those that nobody can take are left out. -/
def run (x : Crew) (actions : List Action) : Crew := runSteps step x actions

/-- Where the messages are that were read: with the callers, in the backlog or settled. -/
def places (x : Crew) : List Place := x.hands.flatMap Hand.places ++ x.source.places

/-! ### What a step keeps -/

/-- The backlog is a queue of the messages that were put off, in the order of the reports. -/
structure Sound (policy : RetryPolicy) (x : Crew) : Prop where
  attends : x.source.Attends false policy (x.hands.flatMap Hand.places)
  queued : x.source.backlog.Queued policy.capacity (x.now + policy.backoff)
  order : x.reports.map (·.retried policy) =
    x.source.backlog.messages.reverse ++ x.source.journal.retried
  scheduled : x.source.journal.scheduled = x.reports.map fun r => (r.retried policy, r.time)
  accurate : ∀ r ∈ x.reports, r.Accurate policy

variable {policy : RetryPolicy} {x x' : Crew} {hand : Hand} {q : InFlight Order} {s : Source}
  {now : Time} {hands : List Hand}

theorem sound_new (policy : RetryPolicy) (now : Time) : (new policy now).Sound policy where
  attends := .new false policy
  queued := .new policy.capacity _
  order := rfl
  scheduled := rfl
  accurate := nofun

/-- What a caller has in hand is one part of what all have. -/
theorem places_hands (h : hand ∈ x.hands) : (x.hands.flatMap Hand.places).Perm
    (hand.places ++ (x.hands.erase hand).flatMap Hand.places) :=
  (List.perm_cons_erase h).flatMap_right Hand.places

/-- A call that leaves the backlog as it is. -/
theorem Sound.keep (h : x.Sound policy) (hs : x.source.KeepsBacklog s) (hnow : x.now ≤ now)
    (ha : s.Attends false policy (hands.flatMap Hand.places)) :
    { x with source := s, now, hands }.Sound policy := by
  obtain ⟨events, hevents, rfl⟩ := hs
  have hretried : Journal.retried events = [] := by
    apply List.filterMap_eq_nil_iff.2
    intro e he
    have hmoves := hevents e he
    cases e with
    | offered q now =>
      rw [Journal.movesBacklog, bne_eq_false_iff_eq] at hmoves
      exact if_pos hmoves
    | _ => rfl
  have hscheduled : Journal.scheduled events = [] := by
    apply List.filterMap_eq_nil_iff.2
    intro e he
    have hmoves := hevents e he
    cases e with
    | scheduled q now => cases hmoves
    | _ => rfl
  refine ⟨ha, h.queued.mono (Nat.add_le_add_right hnow _), ?_, ?_, h.accurate⟩
  · rw [Journal.retried, List.filterMap_append, ← Journal.retried, ← Journal.retried, hretried]
    exact h.order
  · rw [Journal.scheduled, List.filterMap_append, ← Journal.scheduled, ← Journal.scheduled,
      hscheduled]
    exact h.scheduled

/-- A message that waits has failed. -/
theorem Sound.tries_ne_zero (h : x.Sound policy) (hq : q ∈ x.source.backlog.messages) :
    q.tries ≠ 0 := by
  have hmem : q ∈ x.reports.map (·.retried policy) := by
    rw [h.order]
    exact List.mem_append_left _ (List.mem_reverse.2 hq)
  obtain ⟨r, -, rfl⟩ := List.mem_map.1 hmem
  exact Nat.succ_ne_zero _

/-- The message that failed first is offered again. -/
theorem Sound.offer (h : x.Sound policy) (hnow : x.now ≤ now) {backlog : Backlog Order}
    (hpop : x.source.backlog.popEligible now = some (q, backlog))
    (ha : (({ x.source with backlog }).record (.offered q now)).Attends false policy
      (hands.flatMap Hand.places)) :
    { x with source := ({ x.source with backlog }).record (.offered q now), now,
             hands }.Sound policy := by
  have hmessages := Backlog.messages_popEligible hpop
  have htries : q.tries ≠ 0 := h.tries_ne_zero (hmessages ▸ List.mem_cons_self)
  refine ⟨ha, (h.queued.popEligible hpop).mono (Nat.add_le_add_right hnow _), ?_, h.scheduled,
    h.accurate⟩
  have hretried : Journal.retried (.offered q now :: x.source.journal) =
      q :: x.source.journal.retried :=
    List.filterMap_cons_some (if_neg htries)
  have horder := h.order
  rw [hmessages, List.reverse_cons, List.append_assoc] at horder
  rw [horder]
  exact congrArg (backlog.messages.reverse ++ ·) hretried.symm

/-- A failed message is put off, behind those that failed before. -/
theorem Sound.postpone (h : x.Sound policy) (hnow : x.now ≤ now) {backlog : Backlog Order}
    (htries : q.tries + 1 ≤ policy.maxRetries)
    (hpush : x.source.backlog.push now (q.retry now policy.backoff) = some backlog)
    (ha : (({ x.source with backlog }).record
      (.scheduled (q.retry now policy.backoff) now)).Attends false policy
        (hands.flatMap Hand.places)) :
    Sound policy {
      source := ({ x.source with backlog }).record (.scheduled (q.retry now policy.backoff) now)
      now, hands
      reports := ⟨q, now, q.tries + 1, now + policy.backoff⟩ :: x.reports } := by
  obtain ⟨hqueued, hmessages⟩ := h.queued.push rfl (Nat.add_le_add_right hnow _) hpush
  refine ⟨ha, hqueued, ?_, ?_, ?_⟩
  · have hreverse : backlog.messages.reverse =
        q.retry now policy.backoff :: x.source.backlog.messages.reverse := by
      rw [hmessages, List.reverse_append]
      rfl
    have horder : q.retry now policy.backoff :: x.reports.map (·.retried policy) =
        q.retry now policy.backoff :: x.source.backlog.messages.reverse ++
          x.source.journal.retried :=
      congrArg (q.retry now policy.backoff :: ·) h.order
    rw [← hreverse] at horder
    exact horder
  · exact congrArg ((q.retry now policy.backoff, now) :: ·) h.scheduled
  · intro r hr
    rcases List.mem_cons.1 hr with rfl | hr
    · exact ⟨rfl, rfl, rfl, htries⟩
    · exact h.accurate r hr

theorem Sound.step (h : x.Sound policy) {action : Action} (hs : x.step action = some x') :
    x'.Sound policy := by
  cases action with
  | consume now =>
    simp only [Crew.step] at hs
    split at hs <;> cases hs
    rename_i hnow
    have ha := h.attends.consume now
    rw [← Hand.places_ofConsume, ← List.flatMap_append] at ha
    cases hpop : x.source.backlog.popEligible now with
    | none =>
      simp only [Source.consume, hpop] at ha ⊢
      exact h.keep (.refl _) hnow ha
    | some next =>
      simp only [Source.consume, hpop] at ha ⊢
      exact h.offer hnow hpop ha
  | resumeConsume call clock a =>
    simp only [Crew.step] at hs
    split at hs
    · rename_i hguard
      obtain ⟨⟨source, p⟩, hr, rfl⟩ := Option.map_eq_some_iff.1 hs
      have ha := (h.attends.perm (places_hands hguard.2)).resumeConsume hr
      rw [← Hand.places_ofConsume, ← List.flatMap_append] at ha
      exact h.keep (Source.keepsBacklog_resume hr) hguard.1 ha
    · cases hs
  | onSuccess q =>
    simp only [Crew.step] at hs
    split at hs <;> cases hs
    rename_i hheld
    have ha := (h.attends.perm (places_hands hheld)).onSuccess (.unnoted q .processed)
    exact h.keep (Source.keepsBacklog_record _ rfl) (Nat.le_refl _) ha
  | onFail q clock retryable cause =>
    simp only [Crew.step] at hs
    split at hs <;> cases hs
    rename_i hguard
    have hheld : x.source.Attends false policy
        (.held q :: (x.hands.erase (.held q)).flatMap Hand.places) :=
      h.attends.perm (places_hands hguard.2)
    have ha : (x.source.onFail clock q retryable cause).1.Attends false policy _ :=
      hheld.onFail retryable (.unnoted q _) cause
    rw [← Hand.places_ofSettle, ← List.flatMap_append] at ha
    obtain ⟨hkeeps, hreports⟩ | ⟨htries, backlog, hpush, hfail⟩ :=
      x.source.onFail_reports clock q retryable cause
    · rw [hreports]
      exact h.keep hkeeps hguard.1 ha
    · rw [hfail] at ha ⊢
      obtain rfl := h.attends.kept
      exact h.postpone hguard.1 htries hpush ha
  | resumeSettle call a =>
    simp only [Crew.step] at hs
    split at hs
    · rename_i hcall
      obtain ⟨⟨source, p⟩, hr, rfl⟩ := Option.map_eq_some_iff.1 hs
      have hsettling : x.source.Attends false policy (Custody.place (.settling call) ::
          (x.hands.erase (.settling call)).flatMap Hand.places) :=
        h.attends.perm (places_hands hcall)
      have ha := hsettling.resumeSettle hr
      rw [← Hand.places_ofSettle, ← List.flatMap_append] at ha
      exact h.keep (Settle.rests_resume hr).keepsBacklog (Nat.le_refl _) ha
    · cases hs

theorem Sound.run (h : x.Sound policy) (actions : List Action) : (x.run actions).Sound policy :=
  runSteps_keeps (fun h hs => h.step hs) h actions

end Crew

/-! ## The discipline -/

/-- How a message that is now at a place was tried in its life. -/
structure Tried (policy : RetryPolicy) (m : RawMessage) (x : Place) (life : Journal) : Prop extends
    Lived m x life where
  /-- It is offered with its own value, and not after too many failed attempts. -/
  offered : ∀ q now, .offered q now ∈ life →
    q.raw = m ∧ Order.ofBytes m.payload = .ok q.value ∧ q.tries ≤ policy.maxRetries
  /-- Its attempts are numbered from zero. -/
  numbered : ∃ n ≤ policy.maxRetries + 1, life.offers.reverse.map (·.tries) = List.range n
  /-- It is offered again as it was put off, when the backoff is over. -/
  again : ∀ later earlier q now, life = later ++ .offered q now :: earlier → q.tries ≠ 0 →
    ∃ t rest, earlier = .scheduled q t :: rest ∧ q.retryAfter = some (t + policy.backoff) ∧
      t + policy.backoff ≤ now

theorem Journal.Life.tried {noted : Bool} {policy : RetryPolicy} {m : RawMessage} {x : Place}
    {l : Journal} (h : Life noted policy m x l) : Tried policy m x l := by
  obtain ⟨n, hn, hrange, -⟩ := h.attempts
  refine ⟨h.lived, ?_, ⟨n, hn, hrange⟩, ?_⟩
  · intro q now he
    refine ⟨h.message_of_mem he, h.decoded_of_mem he rfl, ?_⟩
    have hmem : q.tries ∈ l.offers.reverse.map (·.tries) :=
      List.mem_map_of_mem (List.mem_reverse.2 (List.mem_filterMap.2 ⟨_, he, rfl⟩))
    rw [hrange, List.mem_range] at hmem
    exact Nat.le_of_lt_succ (Nat.lt_of_lt_of_le hmem hn)
  · intro later earlier q now hl htries
    subst hl
    obtain ⟨hread, -⟩ | ⟨y, hy, leads⟩ := h.of_append.cons_cases
    · cases hread
    cases leads with
    | offer m' o now payload => exact absurd rfl htries
    | again q now due =>
      obtain ⟨t, rest, hrest, hretry, -⟩ := hy.exists_eq_scheduled
      rw [InFlight.isEligible, hretry] at due
      exact ⟨t, rest, hrest, hretry, of_decide_eq_true due⟩

namespace Crew

/-- How the callers of a source come by messages that have failed. -/
structure Disciplined (policy : RetryPolicy) (x : Crew) : Prop where
  /-- Reports tell the attempts and the deadlines. -/
  accurate : ∀ r ∈ x.reports, r.Accurate policy
  /-- What was put off was reported, in the same order. -/
  scheduled : x.source.journal.scheduled = x.reports.map fun r => (r.retried policy, r.time)
  /-- What was reported was offered again in this order, except for what still waits. -/
  order : x.reports.map (·.retried policy) =
    x.source.backlog.messages.reverse ++ x.source.journal.retried
  /-- A message is offered again as it was reported, when it is due. -/
  offered : ∀ q now, .offered q now ∈ x.source.journal → q.tries ≠ 0 →
    ∃ r ∈ x.reports, q = r.retried policy ∧ r.due ≤ now
  /-- A call that begins asks the transport for a message only while nothing that waits is due. -/
  first : ∀ now since, (x.source.consume now).2 = .waits (.reading since) →
    ∀ q ∈ x.source.backlog.messages, q.isEligible now = false
  /-- A call that goes on does not ask the transport for a message. -/
  resumed : ∀ (call : Consume) (clock : Clock) (a : Answer) (s : Source)
    (p : Progress Consume Consumed), call.resume x.source clock a = some (s, p) →
      ∀ since, p ≠ .waits (.reading since)
  size : x.source.backlog.size ≤ policy.capacity
  /-- The journal is dealt out into the lives of the messages. -/
  lives : ∃ lives, Shuffle lives x.source.journal ∧
    List.Forall₂ (fun place life => ∃ m, Tried policy m place life) x.places lives

variable {policy : RetryPolicy} {x : Crew} {q : InFlight Order} {now : Time}

theorem Sound.exists_report (h : x.Sound policy) (hq : .offered q now ∈ x.source.journal)
    (htries : q.tries ≠ 0) : ∃ r ∈ x.reports, q = r.retried policy ∧ r.due ≤ now := by
  obtain ⟨m, place, l, hlife, hmem⟩ := h.attends.housed.exists_life hq
  obtain ⟨later, earlier, hl⟩ := List.append_of_mem hmem
  obtain ⟨t, rest, -, hretry, hdue⟩ := hlife.tried.again later earlier q now hl htries
  have hretried : q ∈ x.reports.map (·.retried policy) := by
    rw [h.order]
    exact List.mem_append_right _ (List.mem_filterMap.2 ⟨_, hq, if_neg htries⟩)
  obtain ⟨r, hr, rfl⟩ := List.mem_map.1 hretried
  refine ⟨r, hr, rfl, ?_⟩
  rw [(h.accurate r hr).due] at hretry
  rw [Option.some.inj hretry]
  exact hdue

theorem Sound.disciplined (h : x.Sound policy) : x.Disciplined policy where
  accurate := h.accurate
  scheduled := h.scheduled
  order := h.order
  offered _ _ hq htries := h.exists_report hq htries
  first now since hreading q hq := by
    obtain ⟨t, ht, rfl⟩ := List.mem_map.1 hq
    unfold Source.consume at hreading
    split at hreading
    · cases hreading
    rename_i hpop
    rw [InFlight.isEligible, h.attends.deadlines t ht]
    exact decide_eq_false (Nat.not_le.2 (h.queued.lt_of_popEligible_eq_none hpop t ht))
  resumed _ _ _ _ _ hresume since := Consume.resume_ne_reading hresume since
  size := h.queued.size
  lives := by
    obtain ⟨lives, hs, hl⟩ := h.attends.housed
    refine ⟨lives, hs, hl.imp ?_⟩
    rintro place life ⟨m, hm⟩
    exact ⟨m, hm.tried⟩

/-- **Failed messages are offered again in the order of their failures**, each when its backoff is
over and no more often than it may be, whatever the callers do, in any order, and whatever the
transport and the sink say. -/
theorem run_disciplined (policy : RetryPolicy) (now : Time) (actions : List Action) :
    ((new policy now).run actions).Disciplined policy :=
  ((sound_new policy now).run actions).disciplined

end Crew

end OrderDesk
