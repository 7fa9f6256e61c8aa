import Mathlib.Data.List.Perm.Subperm
import OrderDesk.Ingest.Source

/-!
# Where messages are

A message that a source has read is in exactly one place: somebody holds it, a call is settling
it, it waits in the backlog, or the transport was told and has answered. `Ledger` ties the journal
to these places. Every call of the source keeps it, from one wait to the next and whatever the
transport and the sink say (`Ledger.consume`, `Ledger.resumeConsume`, `Ledger.onSuccess`,
`Ledger.onFail`, `Ledger.resumeSettle`).

It follows that a message is acknowledged or dead-lettered at most once and never both
(`Ledger.departures_subperm`), and that the transport is told at most once
(`Ledger.commits_subperm`).
-/

namespace OrderDesk

/-! ## What the journal says -/

namespace Event

def read? : Event → Option RawMessage
  | .read m => some m
  | _ => none

def sending? : Event → Option DeadLetter
  | .sending l => some l
  | _ => none

def committing? : Event → Option RawMessage
  | .committing m => some m
  | _ => none

def committed? : Event → Option RawMessage
  | .committed m _ => some m
  | _ => none

def success? : Event → Option RawMessage
  | .answered m none => some m.raw
  | _ => none

/-- It is about the processor. -/
def isDispatch : Event → Bool
  | .calling _ | .answered .. => true
  | _ => false

end Event

namespace Journal

/-- The messages that the transport gave. -/
def reads (j : Journal) : List RawMessage := j.filterMap Event.read?

/-- The letters that the sink was given. -/
def letters (j : Journal) : List DeadLetter := j.filterMap Event.sending?

/-- The messages that the transport was asked to acknowledge. -/
def commits (j : Journal) : List RawMessage := j.filterMap Event.committing?

/-- The messages that the transport was done acknowledging. -/
def settled (j : Journal) : List RawMessage := j.filterMap Event.committed?

/-- The messages whose orders were processed. -/
def successes (j : Journal) : List RawMessage := j.filterMap Event.success?

/-- What the processor was given and what it answered. -/
def dispatches (j : Journal) : Journal := j.filter Event.isDispatch

theorem successes_dispatches (j : Journal) : j.dispatches.successes = j.successes := by
  induction j with
  | nil => rfl
  | cons e j ih =>
    cases e with
    | answered m error =>
      cases error with
      | none => exact congrArg (m.raw :: ·) ih
      | some _ => exact ih
    | _ => exact ih

theorem successes_congr {j j' : Journal} (h : j'.dispatches = j.dispatches) :
    j'.successes = j.successes := by
  rw [← successes_dispatches j', h, successes_dispatches]

end Journal

/-- The message that a letter is about. -/
def DeadLetter.message (l : DeadLetter) : RawMessage := ⟨l.offset, l.payload⟩

/-! ## The backlog -/

namespace Backlog

variable {α : Type} {b b' : Backlog α} {now : Time} {m : InFlight α}

def messages (b : Backlog α) : List (InFlight α) := b.waiting.map (·.message)

theorem insertSorted_perm (s : Scheduled α) (l : List (Scheduled α)) :
    (insertSorted s l).Perm (s :: l) := by
  induction l with
  | nil => exact .refl _
  | cons t ts ih =>
    unfold insertSorted
    split
    · exact .refl _
    · exact (ih.cons t).trans (.swap s t ts)

theorem push_eq_some (h : b.push now m = some b') : b.size < b.capacity ∧ b' = { b with
    waiting := insertSorted ⟨m.retryAfter.getD now, b.nextSeq, m⟩ b.waiting
    nextSeq := b.nextSeq + 1 } := by
  unfold push at h
  split at h
  · cases h
  · rename_i hfull
    rw [isFull, decide_eq_true_eq] at hfull
    exact ⟨Nat.lt_of_not_le hfull, (Option.some.inj h).symm⟩

theorem popEligible_eq_some (h : b.popEligible now = some (m, b')) : ∃ t rest,
    b.waiting = t :: rest ∧ t.due ≤ now ∧ m = t.message ∧ b' = { b with waiting := rest } := by
  unfold popEligible at h
  split at h
  · cases h
  · rename_i t rest hw
    split at h
    · rename_i hdue
      cases h
      exact ⟨t, rest, hw, hdue, rfl, rfl⟩
    · cases h

theorem messages_push (h : b.push now m = some b') : b'.messages.Perm (m :: b.messages) := by
  obtain ⟨-, rfl⟩ := push_eq_some h
  exact (insertSorted_perm _ _).map _

theorem messages_popEligible (h : b.popEligible now = some (m, b')) :
    b.messages = m :: b'.messages := by
  obtain ⟨t, rest, hw, -, rfl, rfl⟩ := popEligible_eq_some h
  rw [messages, hw]
  rfl

theorem messages_eq_nil (h : b.nextRetryAt? = none) : b.messages = [] := by
  rw [nextRetryAt?, Option.map_eq_none_iff, List.head?_eq_none_iff] at h
  rw [messages, h]; rfl

end Backlog

/-! ## Custody -/

/-- A message outside the backlog that is not settled. -/
inductive Custody where
  /-- It was taken and nothing has been done about it. -/
  | held (m : InFlight Order)
  | settling (call : Settle)

namespace Custody

def message : Custody → RawMessage
  | .held m => m.raw
  | .settling (.acknowledging m) => m
  | .settling (.burying b) => b.message

/-- It was acknowledged, or the sink was given its letter. -/
def departs : Custody → Bool
  | .held _ => false
  | .settling _ => true

/-- The transport has been asked to acknowledge it. -/
def commits : Custody → Bool
  | .settling (.acknowledging _) | .settling (.burying (.toCommit _)) => true
  | _ => false

def held? : Custody → Option (InFlight Order)
  | .held m => some m
  | .settling _ => none

end Custody

/-- What is in custody while a call waits and after it has returned. -/
def Progress.custody {κ ρ : Type} (ofCall : κ → List Custody) (ofResult : ρ → List Custody) :
    Progress κ ρ → List Custody
  | .waits call => ofCall call
  | .returns r => ofResult r

def Consume.custody : Consume → List Custody
  | .refusing b _ => [.settling (.burying b)]
  | _ => []

def Consumed.custody : Consumed → List Custody
  | .message m => [.held m]
  | _ => []

def Settle.custody (call : Settle) : List Custody := [.settling call]

def Custody.ofBurial : Progress Burial (Option TransportError) → List Custody :=
  Progress.custody (fun b => [.settling (.burying b)]) fun _ => []

def Custody.ofConsume : Progress Consume Consumed → List Custody :=
  Progress.custody Consume.custody Consumed.custody

def Custody.ofSettle : Progress Settle Settled → List Custody :=
  Progress.custody Settle.custody fun _ => []

/-- A call that refuses a message is no more than the burial of the message. -/
theorem Consume.resume_refusing {s s' : Source} {clock : Clock} {a : Answer} {b : Burial}
    {error : Json.Error} {p : Progress Consume Consumed}
    (h : (Consume.refusing b error).resume s clock a = some (s', p)) :
    ∃ q, b.resume s a = some (s', q) ∧ Custody.ofConsume p = Custody.ofBurial q := by
  simp only [Consume.resume] at h
  split at h
  · cases h
  all_goals
    rename_i hb
    cases h
    exact ⟨_, hb, rfl⟩

theorem Settle.resume_burying {s s' : Source} {a : Answer} {b : Burial}
    {p : Progress Settle Settled} (h : (Settle.burying b).resume s a = some (s', p)) :
    ∃ q, b.resume s a = some (s', q) ∧ Custody.ofSettle p = Custody.ofBurial q := by
  simp only [Settle.resume] at h
  split at h
  · cases h
  all_goals
    rename_i hb
    cases h
    exact ⟨_, hb, rfl⟩

/-! ## A closed transport -/

theorem Burial.resume_failed {s s' : Source} {a : Answer} {b : Burial} {e : TransportError}
    (h : b.resume s a = some (s', .returns (some e))) : a = .committed (some e) := by
  cases b with
  | toSink l => cases a <;> cases h
  | toCommit l =>
    cases a <;> cases h
    rfl

/-- A call learns that the transport is closed from a read, or from an acknowledgement of what is no
order. -/
theorem Consume.resume_closed {s s' : Source} {clock : Clock} {a : Answer} {call : Consume}
    (h : call.resume s clock a = some (s', .returns (.failed (.transport .closed)))) :
    a = .readFailed .closed ∧ s'.backlog.messages = [] ∨ a = .committed (some .closed) := by
  cases call with
  | reading since =>
    cases a with
    | message m =>
      obtain ⟨-, hr⟩ := Prod.mk.inj (Option.some.inj h)
      split at hr <;> cases hr
    | readFailed e =>
      cases e with
      | closed =>
        obtain ⟨rfl, hr⟩ := Prod.mk.inj (Option.some.inj h)
        rw [finish] at hr
        split at hr
        · cases hr
        · rename_i hb
          exact .inl ⟨rfl, Backlog.messages_eq_nil hb⟩
      | _ => cases h
    | _ => cases h
  | resting till =>
    cases a <;> try cases h
    simp only [resume] at h
    split at h <;> cases h
  | refusing b error =>
    simp only [resume] at h
    split at h <;> cases h
    rename_i hb
    exact .inr (Burial.resume_failed hb)

/-! ## The journal along a call -/

/-- A step of a call that neither reads nor hears of an acknowledgement. -/
structure Journal.Still (j j' : Journal) : Prop where
  reads : j'.reads = j.reads
  settled : j'.settled = j.settled
  dispatches : j'.dispatches = j.dispatches

namespace Source

theorem still_consume (s : Source) (now : Time) :
    s.journal.Still (s.consume now).1.journal := by
  unfold Source.consume
  split <;> exact ⟨rfl, rfl, rfl⟩

theorem still_onFail (s : Source) (clock : Clock) (m : InFlight Order) (retryable : Bool)
    (cause : String) : s.journal.Still (s.onFail clock m retryable cause).1.journal := by
  unfold Source.onFail
  split
  · exact ⟨rfl, rfl, rfl⟩
  split
  · exact ⟨rfl, rfl, rfl⟩
  dsimp only
  split <;> exact ⟨rfl, rfl, rfl⟩

end Source

theorem Consume.journal_receive (s : Source) (clock : Clock) (m : RawMessage) :
    (receive s clock m).1.journal.reads = m :: s.journal.reads ∧
      (receive s clock m).1.journal.settled = s.journal.settled ∧
      (receive s clock m).1.journal.dispatches = s.journal.dispatches := by
  unfold receive
  split <;> exact ⟨rfl, rfl, rfl⟩

theorem Burial.dispatches_resume {s s' : Source} {a : Answer} {b : Burial}
    {p : Progress Burial (Option TransportError)} (h : b.resume s a = some (s', p)) :
    s'.journal.dispatches = s.journal.dispatches := by
  cases b <;> cases a <;> cases h <;> rfl

theorem Consume.dispatches_resume {s s' : Source} {clock : Clock} {a : Answer} {call : Consume}
    {p : Progress Consume Consumed} (h : call.resume s clock a = some (s', p)) :
    s'.journal.dispatches = s.journal.dispatches := by
  cases call with
  | reading since =>
    cases a with
    | message m =>
      obtain ⟨rfl, rfl⟩ := Prod.mk.inj (Option.some.inj h)
      exact (Consume.journal_receive s clock m).2.2
    | readFailed e => cases e <;> cases h <;> rfl
    | _ => cases h <;> rfl
  | resting till =>
    cases a with
    | due =>
      simp only [Consume.resume] at h
      split at h <;> cases h
      rfl
    | _ => cases h
  | refusing b error =>
    obtain ⟨q, hb, -⟩ := Consume.resume_refusing h
    exact Burial.dispatches_resume hb

theorem Settle.dispatches_resume {s s' : Source} {a : Answer} {call : Settle}
    {p : Progress Settle Settled} (h : call.resume s a = some (s', p)) :
    s'.journal.dispatches = s.journal.dispatches := by
  cases call with
  | acknowledging m =>
    cases a <;> cases h
    rfl
  | burying b =>
    obtain ⟨q, hb, -⟩ := Settle.resume_burying h
    exact Burial.dispatches_resume hb

/-! ## The ledger -/

/-- The journal of the source agrees with where the messages are: `cs` in custody, the backlog, or
settled. The messages in `acked` were acknowledged by those who held them. A message that may be
tried again has failed no more often than the policy allows. -/
structure Ledger (policy : RetryPolicy) (s : Source) (cs : List Custody)
    (acked : List RawMessage) : Prop where
  kept : s.policy = policy
  reads : s.journal.reads.Perm
    (cs.map Custody.message ++ (s.backlog.messages.map (·.raw) ++ s.journal.settled))
  departures : (s.journal.letters.map DeadLetter.message ++ acked).Perm
    ((cs.filter Custody.departs).map Custody.message ++ s.journal.settled)
  commits : s.journal.commits.Perm
    ((cs.filter Custody.commits).map Custody.message ++ s.journal.settled)
  tries : ∀ m ∈ cs.filterMap Custody.held? ++ s.backlog.messages,
    m.tries ≤ policy.maxRetries

namespace Ledger

variable {policy : RetryPolicy} {s s' : Source} {cs cs' : List Custody}
  {acked : List RawMessage} {m : InFlight Order} {clock : Clock} {a : Answer}

theorem new (policy : RetryPolicy) : Ledger policy (.new policy) [] [] :=
  ⟨rfl, .nil, .nil, .nil, fun _ h => nomatch h⟩

theorem perm (h : Ledger policy s cs acked) (hp : cs.Perm cs') : Ledger policy s cs' acked where
  kept := h.kept
  reads := h.reads.trans ((hp.map _).append_right _)
  departures := h.departures.trans (((hp.filter _).map _).append_right _)
  commits := h.commits.trans (((hp.filter _).map _).append_right _)
  tries m hm := h.tries m (((hp.filterMap _).append_right _).mem_iff.2 hm)

/-! ### Taking messages -/

theorem consume (h : Ledger policy s cs acked) (now : Time) :
    Ledger policy (s.consume now).1 (Custody.ofConsume (s.consume now).2 ++ cs) acked := by
  unfold Source.consume
  split
  · rename_i m backlog hpop
    have hb := Backlog.messages_popEligible hpop
    refine ⟨h.kept, ?_, h.departures, h.commits, fun n hn => h.tries n ?_⟩
    · have hr := h.reads
      rw [hb] at hr
      exact hr.trans List.perm_middle
    · rw [hb]
      exact List.perm_middle.symm.mem_iff.1 hn
  · exact h

/-- A burial goes on, whatever the sink and the transport say. -/
theorem resumeBurial {b : Burial} {p : Progress Burial (Option TransportError)}
    (h : Ledger policy s (.settling (.burying b) :: cs) acked) (hb : b.resume s a = some (s', p)) :
    Ledger policy s' (Custody.ofBurial p ++ cs) acked := by
  cases b with
  | toSink l =>
    cases a <;> cases hb
    exact ⟨h.kept, h.reads, h.departures, h.commits.cons l.message, h.tries⟩
  | toCommit l =>
    cases a <;> cases hb
    refine ⟨h.kept, h.reads.trans ?_, h.departures.trans List.perm_middle.symm,
      h.commits.trans List.perm_middle.symm, h.tries⟩
    rw [← List.append_assoc, ← List.append_assoc]
    exact List.perm_middle.symm

/-- A message has come from the transport, and is handed out or refused. -/
theorem receive (h : Ledger policy s cs acked) (m : RawMessage) :
    Ledger policy (Consume.receive s clock m).1
      (Custody.ofConsume (Consume.receive s clock m).2 ++ cs) acked := by
  unfold Consume.receive
  split
  · refine ⟨h.kept, h.reads.cons m, h.departures, h.commits, fun n hn => ?_⟩
    rcases List.mem_cons.1 hn with rfl | hn
    · exact Nat.zero_le _
    · exact h.tries n hn
  · exact ⟨h.kept, h.reads.cons m, h.departures.cons m, h.commits, h.tries⟩

/-- A call that takes a message goes on, whatever it is told. -/
theorem resumeConsume {call : Consume} {p : Progress Consume Consumed}
    (h : Ledger policy s (call.custody ++ cs) acked) (hc : call.resume s clock a = some (s', p)) :
    Ledger policy s' (Custody.ofConsume p ++ cs) acked := by
  cases call with
  | reading since =>
    cases a with
    | message m =>
      obtain ⟨rfl, rfl⟩ := Prod.mk.inj (Option.some.inj hc)
      exact h.receive m
    | nothing => cases hc; exact h
    | readFailed e =>
      cases e with
      | closed =>
        cases hc
        unfold Consume.finish
        split <;> exact h
      | _ => cases hc; exact h
    | _ => cases hc
  | resting till =>
    cases a with
    | due =>
      simp only [Consume.resume] at hc
      split at hc
      · cases hc; exact h
      · cases hc
    | _ => cases hc
  | refusing b error =>
    obtain ⟨q, hb, he⟩ := Consume.resume_refusing hc
    rw [he]
    exact h.resumeBurial hb

/-! ### Settling messages -/

theorem onSuccess (h : Ledger policy s (.held m :: cs) acked) :
    Ledger policy (s.onSuccess m).1 (.settling (s.onSuccess m).2 :: cs) (m.raw :: acked) where
  kept := h.kept
  reads := h.reads
  departures := List.perm_middle.trans (h.departures.cons m.raw)
  commits := h.commits.cons m.raw
  tries n hn := h.tries n (List.mem_cons_of_mem _ hn)

theorem bury (h : Ledger policy s (.held m :: cs) acked) (tries : Nat) (reason : DeadLetterReason)
    (cause : String) :
    Ledger policy (s.bury clock m tries reason cause).1
      (Custody.ofSettle (s.bury clock m tries reason cause).2 ++ cs) acked where
  kept := h.kept
  reads := h.reads
  departures := h.departures.cons m.raw
  commits := h.commits
  tries n hn := h.tries n (List.mem_cons_of_mem _ hn)

/-- A held message has failed: it waits for its next attempt or is dead-lettered. -/
theorem onFail (h : Ledger policy s (.held m :: cs) acked) (retryable : Bool) (cause : String) :
    Ledger policy (s.onFail clock m retryable cause).1
      (Custody.ofSettle (s.onFail clock m retryable cause).2 ++ cs) acked := by
  unfold Source.onFail
  split
  · exact h.bury m.tries .invalid cause
  split
  · exact h.bury (m.tries + 1) .maxRetriesExceeded cause
  rename_i htries
  dsimp only
  split
  · rename_i backlog hpush
    have hb := Backlog.messages_push hpush
    refine ⟨h.kept, ?_, h.departures, h.commits, fun n hn => ?_⟩
    · have hraw : (backlog.messages.map (·.raw)).Perm
          (m.raw :: s.backlog.messages.map (·.raw)) := hb.map (·.raw)
      exact h.reads.trans (List.perm_middle.symm.trans
        ((hraw.symm.append_right _).append_left _))
    · rw [h.kept] at htries
      have hmem := (hb.append_left (cs.filterMap Custody.held?)).mem_iff.1 hn
      rcases List.mem_cons.1 (List.perm_middle.mem_iff.1 hmem) with rfl | hmem
      · exact Nat.le_of_not_lt htries
      · exact h.tries n (List.mem_cons_of_mem _ hmem)
  · exact h.bury (m.tries + 1) .retryOverflow cause

theorem resumeSettle {call : Settle} {p : Progress Settle Settled}
    (h : Ledger policy s (.settling call :: cs) acked) (hc : call.resume s a = some (s', p)) :
    Ledger policy s' (Custody.ofSettle p ++ cs) acked := by
  cases call with
  | acknowledging m =>
    cases a <;> cases hc
    refine ⟨h.kept, h.reads.trans ?_, h.departures.trans List.perm_middle.symm,
      h.commits.trans List.perm_middle.symm, h.tries⟩
    rw [← List.append_assoc, ← List.append_assoc]
    exact List.perm_middle.symm
  | burying b =>
    obtain ⟨q, hb, he⟩ := Settle.resume_burying hc
    rw [he]
    exact h.resumeBurial hb

/-! ### What follows -/

/-- A message departs once, acknowledged or dead-lettered. -/
theorem departures_subperm (h : Ledger policy s cs acked) :
    (s.journal.letters.map DeadLetter.message ++ acked).Subperm s.journal.reads := by
  refine h.departures.subperm.trans (List.Subperm.trans ?_ h.reads.symm.subperm)
  exact ((List.filter_sublist.map _).append (List.sublist_append_right _ _)).subperm

/-- The transport is asked once to acknowledge a message. -/
theorem commits_subperm (h : Ledger policy s cs acked) :
    s.journal.commits.Subperm s.journal.reads := by
  refine h.commits.subperm.trans (List.Subperm.trans ?_ h.reads.symm.subperm)
  exact ((List.filter_sublist.map _).append (List.sublist_append_right _ _)).subperm

end Ledger

end OrderDesk
