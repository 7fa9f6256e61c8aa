import Mathlib.Data.List.Nodup
import OrderDesk.Ingest.Channel
import OrderDesk.Proofs.Ingest.Ledger

/-!
# A source at the end of a channel

Publishers put messages into a channel, each in small steps that may interleave (`Inlet`), and the
channel answers the calls of a source that reads from it (`Channel.answerConsume`,
`Channel.answerSettle`). The sink and the clocks may say anything at any time.

`Served` says that every offset is in one place, from the publisher that claims it to the
acknowledgement, and that the acknowledged offsets are those of the settled messages. Publishers
and calls keep it in any order.
-/

namespace OrderDesk

/-- An element that is taken out of one list and put into another is still there. -/
theorem erase_append_perm {α : Type} [BEq α] [LawfulBEq α] {x : α} {xs : List α} (h : x ∈ xs)
    (ys zs : List α) : (xs.erase x ++ (ys ++ x :: zs)).Perm (xs ++ (ys ++ zs)) := by
  have hx : (x :: xs.erase x).Perm xs := (List.perm_cons_erase h).symm
  rw [← List.append_assoc]
  refine List.perm_middle.trans ?_
  rw [List.append_assoc]
  exact hx.append_right (ys ++ zs)

namespace Channel

variable {c c' : Channel} {m : RawMessage}

/-! ## The messages of a channel -/

/-- The messages that were offered and not read. -/
def unread (c : Channel) : List RawMessage := c.queue ++ (c.admitted ++ c.waiting)

/-- A publisher that is let in moves from those that wait to those that are admitted. -/
theorem letIn_eq (c : Channel) : ∃ admitted waiting,
    c.letIn = { c with admitted, waiting } ∧
      (admitted ++ waiting).Perm (c.admitted ++ c.waiting) := by
  unfold letIn
  split
  · exact ⟨c.admitted, c.waiting, rfl, .refl _⟩
  · rename_i m rest hw
    split
    · refine ⟨_, _, rfl, ?_⟩
      rw [hw, List.append_assoc]
      exact .refl _
    · exact ⟨c.admitted, c.waiting, rfl, .refl _⟩

theorem take?_eq (h : c.take? = some (m, c')) : ∃ rest admitted waiting,
    c.queue = m :: rest ∧ c' = { c with queue := rest, admitted, waiting } ∧
      (admitted ++ waiting).Perm (c.admitted ++ c.waiting) := by
  unfold take? at h
  split at h
  · cases h
  · rename_i m rest hq
    cases h
    obtain ⟨admitted, waiting, he, hp⟩ := letIn_eq { c with queue := rest }
    exact ⟨rest, admitted, waiting, hq, he, hp⟩

theorem queue_eq_nil (h : c.take? = none) : c.queue = [] := by
  unfold take? at h
  split at h
  · assumption
  · cases h

/-- An offered message is put in or waits, unless there is no reader. -/
theorem offer_cases (c : Channel) (m : RawMessage) :
    c.offer m = .closed ∨ c.offer m = .queued { c with queue := c.queue ++ [m] } ∨
      c.offer m = .waiting { c with waiting := c.waiting ++ [m] } := by
  unfold offer
  split
  · exact .inl rfl
  split
  · exact .inr (.inl rfl)
  · exact .inr (.inr rfl)

theorem insertOffset_perm {n : Nat} {l : List Nat} (h : n ∉ l) :
    (insertOffset n l).Perm (n :: l) := by
  induction l with
  | nil => exact .refl _
  | cons k ks ih =>
    rw [List.mem_cons, not_or] at h
    unfold insertOffset
    split
    · exact .refl _
    · rw [if_neg h.1]
      exact ((ih h.2).cons k).trans (.swap n k ks)

/-! ## Answers -/

/-- The channel after a burial was told this; `none` if it is not told this. -/
def answerBurial (c : Channel) : Burial → Answer → Option Channel
  | .toSink _, .sent _ => some c
  | .toCommit l, .committed none => some (c.commit l.offset)
  | _, _ => none

def answerSettle (c : Channel) : Settle → Answer → Option Channel
  | .acknowledging m, .committed none => some (c.commit m.offset)
  | .burying b, a => c.answerBurial b a
  | _, _ => none

def answerConsume (c : Channel) : Consume → Answer → Option Channel
  | .reading _, .message m =>
    match c.take? with
    | some (n, c) => if n = m then some c else none
    | none => none
  | .reading _, .nothing => if c.queue.isEmpty && !c.isExhausted then some c else none
  | .reading _, .readFailed .closed => if c.isExhausted then some c else none
  | .resting _, .due => some c
  | .refusing b _, a => c.answerBurial b a
  | _, _ => none

/-- A call hears that the transport is closed only of an exhausted channel, and returns so only when
nothing waits for another attempt. -/
theorem answerConsume_closed {s s' : Source} {clock : Clock} {call : Consume} {a : Answer}
    (ha : c.answerConsume call a = some c')
    (hc : call.resume s clock a = some (s', .returns (.failed (.transport .closed)))) :
    c'.isExhausted ∧ s'.backlog.messages = [] := by
  rcases Consume.resume_closed hc with ⟨rfl, hb⟩ | rfl
  · cases call with
    | reading since =>
      simp only [answerConsume] at ha
      split at ha
      · rename_i he
        cases ha
        exact ⟨he, hb⟩
      · cases ha
    | resting till => cases ha
    | refusing b error => cases b <;> cases ha
  · -- the channel acknowledges whatever it is asked to
    cases call with
    | refusing b error => cases b <;> cases ha
    | _ => cases ha

end Channel

/-! ## Publishers -/

/-- A channel with its publishers. -/
structure Inlet where
  channel : Channel
  /-- Messages that have an offset and were not offered yet. -/
  claimed : List RawMessage
  /-- Messages that were put in: their publishers were given the offset. -/
  published : List RawMessage

/-- What a publisher does next. -/
inductive PublisherStep where
  | claim (payload : Bytes)
  | offer (m : RawMessage)
  | arrive (m : RawMessage)
  | withdraw (m : RawMessage)
  /-- Another publisher comes. -/
  | join
  /-- A publisher goes away. -/
  | leave

namespace Inlet

def new (capacity pollWindow : Nat) : Inlet where
  channel := .new capacity pollWindow
  claimed := []
  published := []

/-- Messages that have an offset and were not read. -/
def messages (i : Inlet) : List RawMessage := i.claimed ++ i.channel.unread

/-- No publisher is about to publish. -/
def isIdle (i : Inlet) : Bool :=
  i.claimed.isEmpty && i.channel.admitted.isEmpty && i.channel.waiting.isEmpty

/-- A publisher can take this step. The last one does not go away while it publishes. -/
def Allows (i : Inlet) : PublisherStep → Prop
  | .claim _ | .join => 0 < i.channel.publishers
  | .offer m => m ∈ i.claimed
  | .arrive m => m ∈ i.channel.admitted
  | .withdraw m => m ∈ i.channel.admitted ∨ m ∈ i.channel.waiting
  | .leave => 1 < i.channel.publishers ∨ i.isIdle

instance (i : Inlet) : (step : PublisherStep) → Decidable (i.Allows step)
  | .claim _ | .join => inferInstanceAs (Decidable (_ < _))
  | .offer _ | .arrive _ => inferInstanceAs (Decidable (_ ∈ _))
  | .withdraw _ | .leave => inferInstanceAs (Decidable (_ ∨ _))

def after (i : Inlet) : PublisherStep → Inlet
  | .claim payload =>
    let (offset, channel) := i.channel.claim
    { i with channel, claimed := ⟨offset, payload⟩ :: i.claimed }
  | .offer m =>
    let claimed := i.claimed.erase m
    match i.channel.offer m with
    | .closed => { i with claimed }
    | .queued channel => { channel, claimed, published := m :: i.published }
    | .waiting channel => { i with channel, claimed }
  | .arrive m => { i with channel := i.channel.arrive m, published := m :: i.published }
  | .withdraw m => { i with channel := i.channel.withdraw m }
  | .join => { i with channel := i.channel.addPublisher }
  | .leave => { i with channel := i.channel.dropPublisher }

/-- One step of a publisher, if it can take it. -/
def publish (i : Inlet) (step : PublisherStep) : Option Inlet :=
  if i.Allows step then some (i.after step) else none

/-- Every offset that was claimed is in one place at most, among the messages that were read or on
its way to the reader, and the settled messages are acknowledged. -/
structure Sound (i : Inlet) (read settled : List RawMessage) : Prop where
  distinct : ((read ++ i.messages).map (·.offset)).Nodup
  claimed : ∀ m ∈ read ++ i.messages, m.offset < i.channel.nextOffset
  published : i.published.Perm (read ++ i.channel.queue)
  idle : i.channel.publishers = 0 → i.isIdle
  committed : i.channel.committed.Perm (settled.map (·.offset))

variable {i i' : Inlet} {read settled : List RawMessage} {step : PublisherStep}

theorem isIdle_iff :
    i.isIdle ↔ i.claimed = [] ∧ i.channel.admitted = [] ∧ i.channel.waiting = [] := by
  simp only [isIdle, Bool.and_eq_true, List.isEmpty_iff, and_assoc]

theorem Sound.new (capacity pollWindow : Nat) : (new capacity pollWindow).Sound [] [] where
  distinct := .nil
  claimed _ h := nomatch h
  published := .nil
  idle h := nomatch h
  committed := .nil

/-- Messages that only move, or that publishers give up, stay in one place. -/
theorem Sound.moves (h : i.Sound read settled) {read' : List RawMessage}
    (hm : (read' ++ i'.messages).Subperm (read ++ i.messages))
    (hn : i'.channel.nextOffset = i.channel.nextOffset)
    (hc : i'.channel.committed = i.channel.committed)
    (hp : i'.published.Perm (read' ++ i'.channel.queue))
    (hi : i'.channel.publishers = 0 → i'.isIdle) : i'.Sound read' settled where
  distinct := by
    obtain ⟨l, hl, hs⟩ := hm
    exact ((hl.map (·.offset)).nodup_iff).1 (h.distinct.sublist (hs.map _))
  claimed m hmem := by
    rw [hn]
    exact h.claimed m (hm.subset hmem)
  published := hp
  idle := hi
  committed := hc ▸ h.committed

/-- A channel that somebody publishes into is open. -/
theorem Sound.isOpen (h : i.Sound read settled) {m : RawMessage}
    (hm : m ∈ i.claimed ∨ m ∈ i.channel.admitted ∨ m ∈ i.channel.waiting) :
    i.channel.publishers ≠ 0 := by
  intro h0
  obtain ⟨hc, ha, hw⟩ := isIdle_iff.1 (h.idle h0)
  rw [hc, ha, hw] at hm
  simp at hm

theorem Sound.claim (h : i.Sound read settled) (hpos : 0 < i.channel.publishers) (payload : Bytes) :
    Sound { i with
      channel := i.channel.claim.2
      claimed := ⟨i.channel.nextOffset, payload⟩ :: i.claimed } read settled where
  distinct := by
    refine ((List.perm_middle.map RawMessage.offset).nodup_iff).2
      (List.nodup_cons.2 ⟨?_, h.distinct⟩)
    intro hm
    obtain ⟨m, hm, he⟩ := List.mem_map.1 hm
    have hlt := h.claimed m hm
    rw [he] at hlt
    exact Nat.lt_irrefl _ hlt
  claimed m hm := by
    have hle : m.offset ≤ i.channel.nextOffset := by
      rcases List.mem_cons.1 (List.perm_middle.mem_iff.1 hm) with rfl | hm
      · exact Nat.le_refl _
      · exact Nat.le_of_lt (h.claimed m hm)
    exact Nat.lt_succ_of_le hle
  published := h.published
  idle h0 := absurd h0 (Nat.ne_of_gt hpos)
  committed := h.committed

theorem Sound.offer (h : i.Sound read settled) {m : RawMessage} (hm : m ∈ i.claimed) :
    (i.after (.offer m)).Sound read settled := by
  have hopen : i.channel.publishers ≠ 0 := h.isOpen (.inl hm)
  rcases i.channel.offer_cases m with ho | ho | ho <;> simp only [after, ho]
  · refine h.moves ?_ rfl rfl h.published fun h0 => absurd h0 hopen
    exact ((List.erase_sublist.append_right _).append_left read).subperm
  · refine h.moves (List.Perm.subperm ?_) rfl rfl ?_ fun h0 => absurd h0 hopen
    · have hp := erase_append_perm hm i.channel.queue (i.channel.admitted ++ i.channel.waiting)
      rw [← List.singleton_append (x := m), ← List.append_assoc i.channel.queue] at hp
      exact hp.append_left read
    · rw [← List.append_assoc]
      exact (h.published.cons m).trans (List.perm_append_singleton m _).symm
  · refine h.moves (List.Perm.subperm ?_) rfl rfl h.published fun h0 => absurd h0 hopen
    have hp := erase_append_perm hm i.channel.unread []
    rw [List.append_nil, Channel.unread, List.append_assoc, List.append_assoc] at hp
    exact hp.append_left read

theorem Sound.arrive (h : i.Sound read settled) {m : RawMessage} (hm : m ∈ i.channel.admitted) :
    Sound { i with channel := i.channel.arrive m, published := m :: i.published } read settled := by
  have hopen : i.channel.publishers ≠ 0 := h.isOpen (.inr (.inl hm))
  refine h.moves (List.Perm.subperm ?_) rfl rfl ?_ fun h0 => absurd h0 hopen
  · have hp : ((i.channel.queue ++ [m]) ++ (i.channel.admitted.erase m ++ i.channel.waiting)).Perm
        i.channel.unread := by
      rw [List.append_assoc]
      exact (((List.perm_cons_erase hm).symm).append_right _).append_left _
    exact (hp.append_left i.claimed).append_left read
  · rw [Channel.arrive, ← List.append_assoc]
    exact (h.published.cons m).trans (List.perm_append_singleton m _).symm

theorem Sound.withdraw (h : i.Sound read settled) {m : RawMessage}
    (hm : m ∈ i.channel.admitted ∨ m ∈ i.channel.waiting) :
    Sound { i with channel := i.channel.withdraw m } read settled := by
  have hopen : i.channel.publishers ≠ 0 := h.isOpen (.inr hm)
  obtain ⟨admitted, waiting, he, hp⟩ := Channel.letIn_eq { i.channel with
    admitted := i.channel.admitted.erase m, waiting := i.channel.waiting.erase m }
  rw [Channel.withdraw, he]
  refine h.moves ?_ rfl rfl h.published fun h0 => absurd h0 hopen
  have hs : (admitted ++ waiting).Subperm (i.channel.admitted ++ i.channel.waiting) :=
    hp.subperm.trans (List.erase_sublist.append List.erase_sublist).subperm
  exact (List.subperm_append_left _).2 ((List.subperm_append_left _).2
    ((List.subperm_append_left _).2 hs))

theorem Sound.leave (h : i.Sound read settled) (hlast : 1 < i.channel.publishers ∨ i.isIdle) :
    (i.after .leave).Sound read settled := by
  refine ⟨h.distinct, h.claimed, h.published, fun h0 => ?_, h.committed⟩
  rcases hlast with hlast | hlast
  · have h0' : i.channel.publishers - 1 = 0 := h0
    omega
  · exact hlast

/-- Publishers do not touch what was read, and no offset comes twice. -/
theorem Sound.publish (h : i.Sound read settled) (hs : i.publish step = some i') :
    i'.Sound read settled := by
  unfold Inlet.publish at hs
  split at hs
  · rename_i hallows
    cases hs
    cases step with
    | claim payload => exact h.claim hallows payload
    | offer m => exact h.offer hallows
    | arrive m => exact h.arrive hallows
    | withdraw m => exact h.withdraw hallows
    | join => exact ⟨h.distinct, h.claimed, h.published, fun h0 => (nomatch h0), h.committed⟩
    | leave => exact h.leave hallows
  · cases hs

/-- A channel that is exhausted stays so. -/
theorem Sound.exhausted (h : i.Sound read settled) (he : i.channel.isExhausted)
    (hs : i.publish step = some i') : i'.channel.isExhausted := by
  have h0 : i.channel.publishers = 0 := by
    rw [Channel.isExhausted, Bool.and_eq_true, beq_iff_eq] at he
    exact he.1
  unfold Inlet.publish at hs
  split at hs
  · rename_i hallows
    cases hs
    cases step with
    | claim _ | join => exact absurd h0 (Nat.ne_of_gt hallows)
    | offer m => exact absurd h0 (h.isOpen (.inl hallows))
    | arrive m => exact absurd h0 (h.isOpen (.inr (.inl hallows)))
    | withdraw m => exact absurd h0 (h.isOpen (.inr hallows))
    | leave =>
      rw [Channel.isExhausted, h0] at he
      rw [Channel.isExhausted, after, Channel.dropPublisher, h0]
      exact he
  · cases hs

/-! ### The reader -/

theorem Sound.take (h : i.Sound read settled) {m : RawMessage} {c : Channel}
    (ht : i.channel.take? = some (m, c)) : Sound { i with channel := c } (m :: read) settled := by
  obtain ⟨rest, admitted, waiting, hq, rfl, hp⟩ := Channel.take?_eq ht
  refine h.moves (List.Perm.subperm ?_) rfl rfl ?_ fun h0 => ?_
  · have hm : i.messages.Perm (m :: (i.claimed ++ (rest ++ (admitted ++ waiting)))) := by
      rw [messages, Channel.unread, hq]
      exact List.perm_middle.trans (((hp.symm.append_left rest).append_left i.claimed).cons m)
    exact (List.perm_middle.symm).trans (hm.symm.append_left read)
  · have hpub := h.published
    rw [hq] at hpub
    exact hpub.trans List.perm_middle
  · obtain ⟨hc, ha, hw⟩ := isIdle_iff.1 (h.idle h0)
    rw [ha, hw] at hp
    obtain ⟨ha', hw'⟩ := List.append_eq_nil_iff.1 hp.eq_nil
    exact isIdle_iff.2 ⟨hc, ha', hw'⟩

end Inlet

/-! ## The source -/

/-- Every offset is in one place: on its way to the source, in custody, in the backlog or
acknowledged. -/
structure Served (policy : RetryPolicy) (s : Source) (i : Inlet) (cs : List Custody)
    (acked : List RawMessage) : Prop where
  ledger : Ledger policy s cs acked
  inlet : i.Sound s.journal.reads s.journal.settled

namespace Served

variable {policy : RetryPolicy} {s s' : Source} {i i' : Inlet} {cs cs' : List Custody}
  {acked acked' : List RawMessage} {m : InFlight Order} {clock : Clock} {a : Answer} {c : Channel}

theorem new (policy : RetryPolicy) (capacity pollWindow : Nat) :
    Served policy (.new policy) (.new capacity pollWindow) [] [] :=
  ⟨.new policy, .new capacity pollWindow⟩

theorem perm (h : Served policy s i cs acked) (hp : cs.Perm cs') : Served policy s i cs' acked :=
  ⟨h.ledger.perm hp, h.inlet⟩

theorem publish (h : Served policy s i cs acked) {step : PublisherStep}
    (hs : i.publish step = some i') : Served policy s i' cs acked :=
  ⟨h.ledger, h.inlet.publish hs⟩

/-- The source has gone on by itself. -/
theorem proceeds (h : Served policy s i cs acked) (hl : Ledger policy s' cs' acked')
    (hs : s.journal.Still s'.journal) : Served policy s' i cs' acked' where
  ledger := hl
  inlet := by
    rw [hs.reads, hs.settled]
    exact h.inlet

theorem record (h : Served policy s i cs acked) {e : Event} (he : e.isDispatch) :
    Served policy (s.record e) i cs acked := by
  cases e with
  | calling m | answered m error =>
    exact ⟨⟨h.ledger.kept, h.ledger.reads, h.ledger.departures, h.ledger.commits,
      h.ledger.tries⟩, h.inlet⟩
  | _ => cases he

theorem consume (h : Served policy s i cs acked) (now : Time) :
    Served policy (s.consume now).1 i (Custody.ofConsume (s.consume now).2 ++ cs) acked :=
  h.proceeds (h.ledger.consume now) (s.still_consume now)

theorem onSuccess (h : Served policy s i (.held m :: cs) acked) :
    Served policy (s.onSuccess m).1 i (.settling (s.onSuccess m).2 :: cs) (m.raw :: acked) :=
  h.proceeds h.ledger.onSuccess ⟨rfl, rfl, rfl⟩

theorem onFail (h : Served policy s i (.held m :: cs) acked) (retryable : Bool) (cause : String) :
    Served policy (s.onFail clock m retryable cause).1 i
      (Custody.ofSettle (s.onFail clock m retryable cause).2 ++ cs) acked :=
  h.proceeds (h.ledger.onFail retryable cause) (s.still_onFail clock m retryable cause)

theorem reads_nodup (h : Served policy s i cs acked) : (s.journal.reads.map (·.offset)).Nodup :=
  h.inlet.distinct.sublist ((List.sublist_append_left _ _).map _)

/-- What is in custody was not acknowledged. -/
theorem not_committed {x : Custody} (h : Served policy s i (x :: cs) acked) :
    x.message.offset ∉ i.channel.committed := by
  intro hm
  have hn := ((h.ledger.reads.map (·.offset)).nodup_iff).1 h.reads_nodup
  refine (List.nodup_cons.1 hn).1 ?_
  obtain ⟨n, hn, he⟩ := List.mem_map.1 (h.inlet.committed.mem_iff.1 hm)
  exact List.mem_map.2 ⟨n, List.mem_append_right _ (List.mem_append_right _ hn), he⟩

theorem commit {x : Custody} (h : Served policy s i (x :: cs) acked) {e : Option TransportError}
    (hl : Ledger policy (s.record (.committed x.message e)) cs acked) :
    Served policy (s.record (.committed x.message e))
      { i with channel := i.channel.commit x.message.offset } cs acked where
  ledger := hl
  inlet := ⟨h.inlet.distinct, h.inlet.claimed, h.inlet.published, h.inlet.idle,
    (Channel.insertOffset_perm h.not_committed).trans (h.inlet.committed.cons _)⟩

theorem resumeBurial {b : Burial} {p : Progress Burial (Option TransportError)}
    (h : Served policy s i (.settling (.burying b) :: cs) acked)
    (ha : i.channel.answerBurial b a = some c) (hb : b.resume s a = some (s', p)) :
    Served policy s' { i with channel := c } (Custody.ofBurial p ++ cs) acked := by
  have hl := h.ledger.resumeBurial hb
  cases b with
  | toSink l =>
    cases a <;> cases hb
    cases ha
    exact ⟨hl, h.inlet⟩
  | toCommit l =>
    cases a <;> cases hb
    rename_i e
    cases e <;> cases ha
    exact h.commit hl

theorem resumeSettle {call : Settle} {p : Progress Settle Settled}
    (h : Served policy s i (.settling call :: cs) acked)
    (ha : i.channel.answerSettle call a = some c) (hc : call.resume s a = some (s', p)) :
    Served policy s' { i with channel := c } (Custody.ofSettle p ++ cs) acked := by
  have hl := h.ledger.resumeSettle hc
  cases call with
  | acknowledging m =>
    cases a <;> cases hc
    rename_i e
    cases e <;> cases ha
    exact h.commit hl
  | burying b =>
    obtain ⟨q, hb, he⟩ := Settle.resume_burying hc
    rw [he]
    exact h.resumeBurial ha hb

theorem receive (h : Served policy s i cs acked) {m : RawMessage}
    (ht : i.channel.take? = some (m, c)) :
    Served policy (Consume.receive s clock m).1 { i with channel := c }
      (Custody.ofConsume (Consume.receive s clock m).2 ++ cs) acked where
  ledger := h.ledger.receive m
  inlet := by
    obtain ⟨hreads, hsettled, -⟩ := Consume.journal_receive s clock m
    rw [hreads, hsettled]
    exact h.inlet.take ht

theorem resumeConsume {call : Consume} {p : Progress Consume Consumed}
    (h : Served policy s i (call.custody ++ cs) acked)
    (ha : i.channel.answerConsume call a = some c) (hc : call.resume s clock a = some (s', p)) :
    Served policy s' { i with channel := c } (Custody.ofConsume p ++ cs) acked := by
  have hl := h.ledger.resumeConsume hc
  cases call with
  | reading since =>
    cases a with
    | message m =>
      simp only [Channel.answerConsume] at ha
      split at ha
      · rename_i n c' ht
        split at ha
        · rename_i hn
          subst hn
          cases ha
          obtain ⟨rfl, rfl⟩ := Prod.mk.inj (Option.some.inj hc)
          exact h.receive ht
        · cases ha
      · cases ha
    | nothing =>
      simp only [Channel.answerConsume] at ha
      split at ha
      · cases ha; cases hc; exact ⟨hl, h.inlet⟩
      · cases ha
    | readFailed e =>
      cases e with
      | closed =>
        simp only [Channel.answerConsume] at ha
        split at ha
        · cases ha; cases hc; exact ⟨hl, h.inlet⟩
        · cases ha
      | _ => cases ha
    | _ => cases ha
  | resting till =>
    cases a <;> cases ha
    simp only [Consume.resume] at hc
    split at hc
    · cases hc; exact ⟨hl, h.inlet⟩
    · cases hc
  | refusing b error =>
    obtain ⟨q, hb, he⟩ := Consume.resume_refusing hc
    rw [he]
    exact Served.resumeBurial h ha hb

/-! ### What follows -/

/-- An offset that was read is in custody, in the backlog or acknowledged. -/
theorem reads_perm (h : Served policy s i cs acked) :
    (s.journal.reads.map (·.offset)).Perm (cs.map (·.message.offset) ++
      (s.backlog.messages.map InFlight.offset ++ i.channel.committed)) := by
  have hp := h.ledger.reads.map (·.offset)
  rw [List.map_append, List.map_append, List.map_map, List.map_map] at hp
  exact hp.trans ((h.inlet.committed.symm.append_left _).append_left _)

/-- Messages that were read at most once have offsets that come at most once. -/
theorem offsets_nodup (h : Served policy s i cs acked) {ms : List RawMessage}
    (hm : ms.Subperm s.journal.reads) : (ms.map (·.offset)).Nodup := by
  obtain ⟨l, hl, hs⟩ := hm
  exact ((hl.map (·.offset)).nodup_iff).1 (h.reads_nodup.sublist (hs.map _))

end Served

end OrderDesk
