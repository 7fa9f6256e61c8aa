import Mathlib.Data.List.DropRight
import OrderDesk.Proofs.Ingest.Moves

/-!
# What the journal tells about one message

The story of an offset is the part of the journal that is about its dispatches and letters
(`Journal.story`). Events about other offsets leave it as it is, so what was told about a message
stays true while others go on. How many messages wait for another attempt can be told from the
journal as well (`Source.Counted.move`), also for a moment in the past.
-/

namespace OrderDesk

/-! ## Stories -/

namespace Event

/-- It is about a dispatch or a letter of this offset. -/
def concerns (n : Nat) : Event → Bool
  | .sending l => l.offset == n
  | .calling q | .answered q _ => q.offset == n
  | _ => false

def call? : Event → Option (InFlight Order)
  | .calling q => some q
  | _ => none

def answer? : Event → Option (Option OrderError)
  | .answered _ error => some error
  | _ => none

theorem concerns_of_isQuiet {e : Event} (h : e.isQuiet) (n : Nat) : e.concerns n = false := by
  cases e <;> first | rfl | cases h

theorem read?_of_isQuiet {e : Event} (h : e.isQuiet) : e.read? = none := by
  cases e <;> first | rfl | cases h

theorem call?_of_isQuiet {e : Event} (h : e.isQuiet) : e.call? = none := by
  cases e <;> first | rfl | cases h

theorem answer?_of_isQuiet {e : Event} (h : e.isQuiet) : e.answer? = none := by
  cases e <;> first | rfl | cases h

end Event

namespace Journal

variable {j events : Journal} {n : Nat}

/-- The part that is about the dispatches and the letters of an offset. -/
def story (j : Journal) (n : Nat) : Journal := j.filter (·.concerns n)

/-- What the processor was given, the latest message first. -/
def calls (j : Journal) : List (InFlight Order) := j.filterMap Event.call?

/-- What the processor answered, the latest answer first. -/
def answers (j : Journal) : List (Option OrderError) := j.filterMap Event.answer?

theorem story_append (events j : Journal) (n : Nat) :
    story (events ++ j) n = events.story n ++ j.story n :=
  List.filter_append ..

/-- What happens to other messages is not part of the story. -/
theorem story_of_not_concerns (h : ∀ e ∈ events, e.concerns n = false) : events.story n = [] := by
  refine List.filter_eq_nil_iff.2 fun e he => ?_
  rw [h e he]
  exact Bool.false_ne_true

theorem letters_story (j : Journal) (n : Nat) :
    (j.story n).letters = j.letters.filter (·.offset == n) := by
  induction j with
  | nil => rfl
  | cons e j ih =>
    cases e with
    | sending l =>
      rw [show letters (.sending l :: j) = l :: letters j from rfl, List.filter_cons, ← ih, story,
        List.filter_cons, ← story, Event.concerns]
      split <;> rfl
    | calling q | answered q _ =>
      rw [story, List.filter_cons, ← story]
      split <;> exact ih
    | _ => exact ih

/-! ## Calls and answers -/

/-- The processor was given every offset as often as it has answered, and once more while it works
on its message. -/
def Paired (j : Journal) (working : List (InFlight Order)) : Prop :=
  ∀ n, (j.story n).calls.length =
    (j.story n).answers.length + working.countP (·.offset == n)

variable {working working' : List (InFlight Order)} {q : InFlight Order}

theorem filterMap_story_append {β : Type} {f : Event → Option β} (h : events.filterMap f = [])
    (j : Journal) (n : Nat) : (story (events ++ j) n).filterMap f = (j.story n).filterMap f := by
  have hstory : (events.story n).filterMap f = [] :=
    List.sublist_nil.1 (h ▸ List.filter_sublist.filterMap f)
  rw [story_append, List.filterMap_append, hstory, List.nil_append]

theorem Paired.append (h : j.Paired working) (events : Journal) (hcalls : events.calls = [])
    (hanswers : events.answers = []) (hp : working'.Perm working) :
    (events ++ j).Paired working' := by
  intro n
  have hcount : working'.countP (·.offset == n) = working.countP (·.offset == n) := hp.countP_eq _
  rw [calls, answers, filterMap_story_append hcalls, filterMap_story_append hanswers, hcount]
  exact h n

theorem Paired.calling (h : j.Paired working) (q : InFlight Order) :
    Journal.Paired (.calling q :: j) (q :: working) := by
  intro n
  rw [List.countP_cons, story, List.filter_cons, ← story]
  have hn := h n
  change _ = _ + (_ + if Event.concerns n (.calling q) then 1 else 0)
  split
  · change (j.story n).calls.length + 1 = (j.story n).answers.length + _
    omega
  · exact hn

theorem Paired.answered (h : j.Paired (q :: working)) (error : Option OrderError) :
    Journal.Paired (.answered q error :: j) working := by
  intro n
  have hn := h n
  rw [List.countP_cons] at hn
  change _ = _ + (_ + if Event.concerns n (.answered q error) then 1 else 0) at hn
  rw [story, List.filter_cons, ← story]
  split at hn
  · rename_i hconcerns
    rw [if_pos hconcerns]
    change (j.story n).calls.length = (j.story n).answers.length + 1 + _
    omega
  · rename_i hconcerns
    rw [if_neg hconcerns]
    exact hn

/-! ## The backlog as the journal tells it -/

/-- How many messages wait for another attempt after these events. -/
def waiting : Journal → Nat
  | [] => 0
  | .scheduled .. :: j => waiting j + 1
  | .offered q _ :: j => if q.tries = 0 then waiting j else waiting j - 1
  | _ :: j => waiting j

theorem waiting_of_isQuiet (h : ∀ e ∈ events, e.isQuiet) (j : Journal) :
    waiting (events ++ j) = waiting j := by
  induction events with
  | nil => rfl
  | cons e events ih =>
    have he := h e List.mem_cons_self
    have ih := ih fun e he => h e (List.mem_cons_of_mem _ he)
    cases e <;> first | exact ih | cases he

theorem reads_append (events j : Journal) : reads (events ++ j) = reads events ++ reads j :=
  List.filterMap_append ..

theorem reads_of_isQuiet (h : ∀ e ∈ events, e.isQuiet) : events.reads = [] :=
  List.filterMap_eq_nil_iff.2 fun e he => Event.read?_of_isQuiet (h e he)

end Journal

namespace Backlog

variable {α : Type} {b b' : Backlog α} {now : Time} {q : InFlight α}

/-- A message goes in only where there is room. -/
theorem push_of_some (h : b.push now q = some b') :
    b.messages.length < b.capacity ∧ b'.capacity = b.capacity := by
  obtain ⟨hroom, rfl⟩ := push_eq_some h
  rw [messages, List.length_map]
  exact ⟨hroom, rfl⟩

theorem push_of_none (h : b.push now q = none) : b.capacity ≤ b.messages.length := by
  unfold push at h
  split at h
  · rename_i hfull
    rw [messages, List.length_map]
    exact of_decide_eq_true hfull
  · cases h

theorem capacity_popEligible (h : b.popEligible now = some (q, b')) : b'.capacity = b.capacity := by
  obtain ⟨t, rest, -, -, -, rfl⟩ := popEligible_eq_some h
  rfl

end Backlog

namespace Source

/-- The backlog keeps within the policy, and the journal tells how many messages it holds. -/
structure Counted (policy : RetryPolicy) (s : Source) : Prop where
  capacity : s.backlog.capacity = policy.capacity
  within : s.backlog.messages.length ≤ policy.capacity
  waiting : s.backlog.messages.length = s.journal.waiting
  retried : ∀ q ∈ s.backlog.messages, q.tries ≠ 0

variable {policy : RetryPolicy} {s s' : Source} {clock : Clock} {q : InFlight Order}

theorem Counted.new (policy : RetryPolicy) : Counted policy (.new policy) :=
  ⟨rfl, Nat.zero_le _, rfl, fun _ h => nomatch h⟩

/-- Events that move no message into the backlog or out of it. -/
theorem Counted.append (h : Counted policy s) (events : Journal)
    (he : (events ++ s.journal).waiting = s.journal.waiting) :
    Counted policy { s with journal := events ++ s.journal } :=
  ⟨h.capacity, h.within, h.waiting.trans he.symm, h.retried⟩

theorem Counted.takes (h : Counted policy s) (ht : s.Takes clock q s') : Counted policy s' := by
  cases ht with
  | fresh m o payload => exact h.append [.offered (.fresh m o) clock.now, .read m] rfl
  | again _ backlog due =>
    have hb := Backlog.messages_popEligible due
    have hlen : s.backlog.messages.length = backlog.messages.length + 1 := by
      rw [hb, List.length_cons]
    have hretried : q.tries ≠ 0 := h.retried q (hb ▸ List.mem_cons_self)
    refine ⟨(Backlog.capacity_popEligible due).trans h.capacity, ?_, ?_, fun n hn => ?_⟩
    · exact Nat.le_trans (Nat.le_of_lt (hlen ▸ Nat.lt_succ_self _)) h.within
    · change backlog.messages.length = if q.tries = 0 then _ else s.journal.waiting - 1
      rw [if_neg hretried, ← h.waiting, hlen, Nat.add_sub_cancel]
    · exact h.retried n (hb ▸ List.mem_cons_of_mem _ hn)

theorem Counted.fails (h : Counted policy s) (cause : String) :
    Counted policy (s.onFail clock q true cause).1 := by
  rcases s.onFail_cases clock q cause with ⟨-, he⟩ | ⟨-, backlog, hpush, he⟩ | ⟨-, -, he⟩
  · rw [he]
    exact h.append [.sending _] rfl
  · rw [he]
    obtain ⟨hroom, hcapacity⟩ := Backlog.push_of_some hpush
    have hp := Backlog.messages_push hpush
    have hlen : backlog.messages.length = s.backlog.messages.length + 1 := hp.length_eq
    refine ⟨hcapacity.trans h.capacity, ?_, ?_, fun n hn => ?_⟩
    · change backlog.messages.length ≤ _
      rw [hlen, ← h.capacity]
      exact hroom
    · exact hlen.trans (congrArg (· + 1) h.waiting)
    · rcases List.mem_cons.1 (hp.mem_iff.1 hn) with rfl | hn
      · exact Nat.succ_ne_zero _
      · exact h.retried n hn
  · rw [he]
    exact h.append [.sending _] rfl

/-- Every step keeps the count. -/
theorem Counted.move {p p' : Pipeline} {heard : Option (InFlight Order × Option OrderError)}
    (h : Counted policy p.source) (hm : p.Move clock p' heard) : Counted policy p'.source := by
  cases hm with
  | rest source active =>
    obtain ⟨events, hquiet, he⟩ := source
    rw [he]
    exact h.append events (Journal.waiting_of_isQuiet hquiet _)
  | refuse m e payload source active =>
    rw [source]
    exact h.append [.sending _, .read m] rfl
  | accept q taken valid active => exact h.takes taken
  | reject q s taken e invalid source active =>
    rw [source]
    exact (h.takes taken).append [.sending _] rfl
  | call q held source active =>
    rw [source]
    exact h.append [.calling q] rfl
  | succeed q source active =>
    rw [source]
    exact h.append [.committing q.raw, .answered q none] rfl
  | fail q e source active =>
    rw [source]
    exact (h.append [.answered q (some e)] rfl).fails e.text

end Source

/-! ## Messages under way -/

namespace Custody

theorem message_of_held? {c : Custody} {q : InFlight Order} (h : c.held? = some q) :
    c.message = q.raw := by
  cases c with
  | held m =>
    cases h
    rfl
  | settling call => cases h

theorem map_raw_sublist (cs : List Custody) :
    ((cs.filterMap held?).map (·.raw)).Sublist (cs.map message) := by
  induction cs with
  | nil => exact .slnil
  | cons c cs ih =>
    rw [List.filterMap_cons]
    split
    · exact ih.cons _
    · rename_i q hq
      rw [List.map_cons, List.map_cons, message_of_held? hq]
      exact ih.cons_cons _

end Custody

/-- A message that is held or waits was read, and once at most. -/
theorem Ledger.pending_subperm {policy : RetryPolicy} {s : Source} {cs : List Custody}
    {acked : List RawMessage} (h : Ledger policy s cs acked) :
    ((cs.filterMap Custody.held? ++ s.backlog.messages).map (·.raw)).Subperm s.journal.reads := by
  refine List.Subperm.trans (List.Sublist.subperm ?_) h.reads.symm.subperm
  rw [List.map_append, ← List.append_assoc]
  exact ((Custody.map_raw_sublist cs).append_right _).trans (List.sublist_append_left _ _)

namespace Pipeline

variable {policy : RetryPolicy} {p : Pipeline} {i : Inlet} {q : InFlight Order}

/-- The messages under way: with the processor, and in the backlog. -/
def pending (p : Pipeline) : List (InFlight Order) := p.active ++ p.source.backlog.messages

theorem Sound.pending_nodup (h : p.Sound policy i) : (p.pending.map (·.offset)).Nodup := by
  have hp := h.attended.ledger.pending_subperm
  rw [held?_custody_eq] at hp
  have hd := Served.offsets_nodup h.attended hp
  rwa [List.map_map] at hd

/-- Every step keeps calls and answers together. -/
theorem Move.paired {p' : Pipeline} {clock : Clock}
    {heard : Option (InFlight Order × Option OrderError)} (hm : p.Move clock p' heard)
    (h : p.source.journal.Paired p.processing) : p'.source.journal.Paired p'.processing := by
  cases hm with
  | rest source active processing =>
    obtain ⟨events, hquiet, he⟩ := source
    rw [he]
    refine h.append events ?_ ?_ processing
    · exact List.filterMap_eq_nil_iff.2 fun e he => Event.call?_of_isQuiet (hquiet e he)
    · exact List.filterMap_eq_nil_iff.2 fun e he => Event.answer?_of_isQuiet (hquiet e he)
  | refuse m e payload source active processing =>
    rw [source]
    exact h.append [.sending _, .read m] rfl rfl processing
  | accept q taken valid active processing =>
    generalize p'.source = s at taken
    cases taken with
    | fresh m o payload => exact h.append [.offered _ _, .read m] rfl rfl processing
    | again _ backlog due => exact h.append [.offered q clock.now] rfl rfl processing
  | reject q s taken e invalid source active processing =>
    rw [source]
    cases taken with
    | fresh m o payload => exact h.append [.sending _, .offered _ _, .read m] rfl rfl processing
    | again _ backlog due => exact h.append [.sending _, .offered q clock.now] rfl rfl processing
  | call q held source active processing =>
    rw [source]
    exact (h.calling q).append [] rfl rfl processing
  | succeed q source active processing =>
    have h := h.append [] rfl rfl processing.symm
    rw [source]
    exact (h.answered none).append [.committing q.raw] rfl rfl (.refl _)
  | fail q e source active processing =>
    have h := (h.append [] rfl rfl processing.symm).answered (some e)
    rw [source]
    rcases (p.source.record (.answered q (some e))).onFail_cases clock q e.text with
      ⟨-, he⟩ | ⟨-, backlog, -, he⟩ | ⟨-, -, he⟩
    · rw [he]
      exact h.append [.sending _] rfl rfl (.refl _)
    · rw [he]
      exact h.append [.scheduled _ _] rfl rfl (.refl _)
    · rw [he]
      exact h.append [.sending _] rfl rfl (.refl _)

theorem Sound.tries_le (h : p.Sound policy i) (hq : q ∈ p.pending) :
    q.tries ≤ policy.maxRetries := by
  have htries := h.attended.ledger.tries
  rw [held?_custody_eq] at htries
  exact htries q hq

end Pipeline

/-! ## Letters that are kept -/

namespace Sink

/-- The sink after these letters, the first one first. -/
def sendAll (k : Sink) (ls : List DeadLetter) : Sink := ls.foldl (fun k l => (k.send l).2) k

/-- A sink in memory that is given one more letter keeps the most recent ones. -/
theorem send_memory {capacity : Nat} (ls : List DeadLetter) (l : DeadLetter) :
    (send l (.memory capacity (ls.rtake capacity))).2 =
      .memory capacity ((ls ++ [l]).rtake capacity) := by
  unfold send
  cases capacity with
  | zero => simp only [List.rtake_zero, if_true]
  | succ n =>
    simp only [Nat.succ_ne_zero, if_false, List.rtake_concat_succ, memory.injEq, true_and,
      List.append_left_inj]
    by_cases hlong : n + 1 ≤ ls.length
    · have hlen : (ls.rtake (n + 1)).length = n + 1 := by
        rw [List.rtake, List.length_drop]
        omega
      rw [if_pos (Nat.le_of_eq hlen.symm), List.rtake, List.rtake, List.drop_drop]
      congr 1
      omega
    · have hshort : ls.length ≤ n := by omega
      have hall : ∀ k, ls.length ≤ k → ls.rtake k = ls := fun k hk => by
        rw [List.rtake, Nat.sub_eq_zero_of_le hk, List.drop_zero]
      rw [hall _ (Nat.le_succ_of_le hshort), hall _ hshort, if_neg hlong]

/-- A sink in memory keeps the most recent letters, as many as it can. -/
theorem letters_sendAll (capacity : Nat) (ls : List DeadLetter) :
    (sendAll (.memory capacity []) ls).letters = ls.rtake capacity := by
  have hsend : sendAll (.memory capacity []) ls = .memory capacity (ls.rtake capacity) := by
    induction ls using List.reverseRecOn with
    | nil => simp only [sendAll, List.foldl_nil, List.rtake_nil]
    | append_singleton ls l ih =>
      rw [sendAll, List.foldl_concat, ← sendAll, ih]
      exact send_memory ls l
  rw [hsend, letters]

end Sink

end OrderDesk
