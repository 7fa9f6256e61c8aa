import OrderDesk.Proofs.Ingest.Stories
import OrderDesk.Proofs.Order.Validation

/-!
# What becomes of a message

A message that was read has one of six fates: its payload is no order, its order breaks a rule, an
attempt succeeds, its attempts are used up, the backlog has no room for it, or it is still under
way. The journal tells which one (`Journal.Tells`, `Journal.fate`), with the letter that belongs to
it. An intake under a calendar clock that never goes back (`Watch`) keeps the journal so
(`Watch.run_fates`).

The clock enters through validation. A message is validated again before every attempt, by a later
time; so one that passed when it was read passes from then on.
-/

namespace OrderDesk

inductive Fate where
  | undecodable
  /-- The order broke a rule when it was read. -/
  | invalid
  | processed
  /-- Every attempt that the policy allows has failed. -/
  | exhausted
  /-- An attempt failed while the backlog was full. -/
  | overflowed
  /-- It is on its way through the processor or in the backlog. -/
  | unsettled
  deriving DecidableEq, Repr

def DeadLetterReason.fate : DeadLetterReason → Fate
  | .undecodable => .undecodable
  | .invalid => .invalid
  | .maxRetriesExceeded => .exhausted
  | .retryOverflow => .overflowed

/-- It says that an attempt has failed. -/
def Event.isFailure : Event → Bool
  | .answered _ (some _) => true
  | _ => false

theorem Event.isFailure_of_isQuiet {e : Event} (h : e.isQuiet) : e.isFailure = false := by
  cases e <;> first | rfl | cases h

namespace Journal

/-- What became of an offset that was read: its letter tells, or the answers of the processor. -/
def fate (j : Journal) (n : Nat) : Fate :=
  match (j.story n).letters with
  | l :: _ => l.reason.fate
  | [] => if none ∈ (j.story n).answers then .processed else .unsettled

/-- A message under way: its order kept the rules when it was read, and since then it has failed as
often as it says. -/
structure Underway (j : Journal) (readAt : Timestamp) (q : InFlight Order) : Prop where
  payload : Order.ofBytes q.raw.payload = .ok q.value
  valid : q.value.validate readAt = .ok ()
  letters : (j.story q.offset).letters = []
  answers : ∃ es : List OrderError,
    (j.story q.offset).answers = es.map some ∧ es.length = q.tries

/-- The journal tells that a message, read at the calendar time `readAt`, has this fate, while the
messages in `pending` are under way. -/
inductive Tells (policy : RetryPolicy) (j : Journal) (pending : List (InFlight Order))
    (m : RawMessage) (readAt : Timestamp) : Fate → Prop where
  | undecodable (e : Json.Error) (payload : Order.ofBytes m.payload = .error e)
      (story : j.story m.offset = [.sending (m.letter readAt 0 .undecodable e.message)]) :
      Tells policy j pending m readAt .undecodable
  | invalid (o : Order) (payload : Order.ofBytes m.payload = .ok o) (e : ValidationError)
      (broken : o.validate readAt = .error e)
      (story : j.story m.offset = [.sending (m.letter readAt 0 .invalid e.text)]) :
      Tells policy j pending m readAt .invalid
  | processed (o : Order) (payload : Order.ofBytes m.payload = .ok o)
      (valid : o.validate readAt = .ok ()) (es : List OrderError)
      (tries : es.length ≤ policy.maxRetries)
      (answers : (j.story m.offset).answers = none :: es.map some)
      (letters : (j.story m.offset).letters = []) :
      Tells policy j pending m readAt .processed
  | exhausted (o : Order) (payload : Order.ofBytes m.payload = .ok o)
      (valid : o.validate readAt = .ok ()) (e : OrderError) (es : List OrderError)
      (tries : es.length = policy.maxRetries)
      (answers : (j.story m.offset).answers = (e :: es).map some) (deadAt : Timestamp)
      (letters : (j.story m.offset).letters =
        [m.letter deadAt (policy.maxRetries + 1) .maxRetriesExceeded e.text]) :
      Tells policy j pending m readAt .exhausted
  | overflowed (o : Order) (payload : Order.ofBytes m.payload = .ok o)
      (valid : o.validate readAt = .ok ()) (e : OrderError) (es : List OrderError)
      (tries : es.length + 1 ≤ policy.maxRetries)
      (answers : (j.story m.offset).answers = (e :: es).map some) (deadAt : Timestamp)
      (letters : (j.story m.offset).letters =
        [m.letter deadAt (es.length + 1) .retryOverflow e.text])
      (older : Journal)
      (moment : .sending (m.letter deadAt (es.length + 1) .retryOverflow e.text) :: older <:+ j)
      (full : older.waiting = policy.capacity) :
      Tells policy j pending m readAt .overflowed
  | unsettled (q : InFlight Order) (raw : q.raw = m) (mem : q ∈ pending)
      (underway : j.Underway readAt q) (tries : q.tries ≤ policy.maxRetries) :
      Tells policy j pending m readAt .unsettled

variable {policy : RetryPolicy} {j events : Journal} {pending pending' : List (InFlight Order)}
  {m : RawMessage} {readAt : Timestamp} {q : InFlight Order} {n : Nat} {f : Fate}

/-- The fates exclude each other: what the journal tells of an offset is about one of them. -/
theorem Tells.eq_fate (h : j.Tells policy pending m readAt f) : f = j.fate m.offset := by
  cases h with
  | undecodable e payload story | invalid o payload e broken story =>
    rw [fate, story]
    rfl
  | processed o payload valid es tries answers letters =>
    rw [fate, letters, answers]
    exact (if_pos List.mem_cons_self).symm
  | exhausted o payload valid e es tries answers deadAt letters =>
    rw [fate, letters]
    rfl
  | overflowed o payload valid e es tries answers deadAt letters older moment full =>
    rw [fate, letters]
    rfl
  | unsettled q raw mem underway tries =>
    obtain rfl := raw
    obtain ⟨es, hes, -⟩ := underway.answers
    rw [fate, ← InFlight.offset, underway.letters, hes]
    refine (if_neg fun hnone => ?_).symm
    obtain ⟨e, -, he⟩ := List.mem_map.1 hnone
    cases he

/-! ## Stories of several messages -/

theorem story_cons_of_concerns {e : Event} (h : e.concerns n) :
    story (e :: j) n = e :: j.story n :=
  List.filter_cons_of_pos h

theorem story_cons_of_not_concerns {e : Event} (h : e.concerns n = false) :
    story (e :: j) n = j.story n :=
  List.filter_cons_of_neg (by rw [h]; exact Bool.false_ne_true)

theorem story_answered (q : InFlight Order) (error : Option OrderError) (j : Journal) :
    story (.answered q error :: j) q.offset = .answered q error :: j.story q.offset :=
  story_cons_of_concerns (beq_self_eq_true _)

theorem Underway.append (h : j.Underway readAt q) (he : events.story q.offset = []) :
    (events ++ j).Underway readAt q := by
  have hstory : story (events ++ j) q.offset = j.story q.offset := by
    rw [story_append, he, List.nil_append]
  exact ⟨h.payload, h.valid, hstory ▸ h.letters, hstory ▸ h.answers⟩

/-- What was told about a message is still true after events that are not about it. -/
theorem Tells.append (h : j.Tells policy pending m readAt f) (he : events.story m.offset = [])
    (hp : ∀ q ∈ pending, q.raw = m → q ∈ pending') :
    (events ++ j).Tells policy pending' m readAt f := by
  have hstory : story (events ++ j) m.offset = j.story m.offset := by
    rw [story_append, he, List.nil_append]
  cases h with
  | undecodable e payload story => exact .undecodable e payload (hstory ▸ story)
  | invalid o payload e broken story => exact .invalid o payload e broken (hstory ▸ story)
  | processed o payload valid es tries answers letters =>
    exact .processed o payload valid es tries (hstory ▸ answers) (hstory ▸ letters)
  | exhausted o payload valid e es tries answers deadAt letters =>
    exact .exhausted o payload valid e es tries (hstory ▸ answers) deadAt (hstory ▸ letters)
  | overflowed o payload valid e es tries answers deadAt letters older moment full =>
    exact .overflowed o payload valid e es tries (hstory ▸ answers) deadAt (hstory ▸ letters) older
      (moment.trans (List.suffix_append _ _)) full
  | unsettled q raw mem underway tries =>
    obtain rfl := raw
    exact .unsettled q rfl (hp q mem rfl) (underway.append he) tries

/-- The journal tells a fate of every message that was read, and no other message is under way. The
messages in `received` come with the calendar time when they were read. -/
structure Told (policy : RetryPolicy) (j : Journal) (pending : List (InFlight Order))
    (received : List (RawMessage × Timestamp)) : Prop where
  reads : received.map Prod.fst = j.reads
  distinct : (j.reads.map (·.offset)).Nodup
  unread : ∀ n, n ∉ j.reads.map (·.offset) → j.story n = []
  fates : ∀ r ∈ received, ∃ f, j.Tells policy pending r.1 r.2 f
  underway : ∀ q ∈ pending, ∃ readAt, (q.raw, readAt) ∈ received ∧ j.Underway readAt q

namespace Told

variable {received : List (RawMessage × Timestamp)}

theorem mem_reads (h : j.Told policy pending received) (hq : q ∈ pending) :
    q.offset ∈ j.reads.map (·.offset) := by
  obtain ⟨readAt, hr, -⟩ := h.underway q hq
  rw [← h.reads, List.map_map]
  exact List.mem_map.2 ⟨_, hr, rfl⟩

theorem eq_of_offset_eq (h : j.Told policy pending received) {r r' : RawMessage × Timestamp}
    (hr : r ∈ received) (hr' : r' ∈ received) (he : r.1.offset = r'.1.offset) : r = r' := by
  have hdistinct := h.distinct
  rw [← h.reads, List.map_map] at hdistinct
  exact List.inj_on_of_nodup_map hdistinct hr hr' he

/-- Events that are about no message, or only the past of a journal. -/
theorem append (h : j.Told policy pending received) (events : Journal) (hreads : events.reads = [])
    (he : ∀ n, events.story n = []) (hp : ∀ q, q ∈ pending' ↔ q ∈ pending) :
    (events ++ j).Told policy pending' received := by
  have hreads' : Journal.reads (events ++ j) = j.reads := by
    rw [reads_append, hreads, List.nil_append]
  refine ⟨hreads' ▸ h.reads, hreads' ▸ h.distinct, fun n hn => ?_, fun r hr => ?_, fun q hq => ?_⟩
  · rw [hreads'] at hn
    rw [story_append, he, List.nil_append, h.unread n hn]
  · obtain ⟨f, hf⟩ := h.fates r hr
    exact ⟨f, hf.append (he _) fun q hq _ => (hp q).2 hq⟩
  · obtain ⟨readAt, hr, hu⟩ := h.underway q ((hp q).1 hq)
    exact ⟨readAt, hr, hu.append (he _)⟩

/-- A message was read now, and the events are about it. -/
theorem read (h : j.Told policy pending received) (hm : m.offset ∉ j.reads.map (·.offset))
    (events : Journal) (hreads : events.reads = [m]) (he : ∀ n, n ≠ m.offset → events.story n = [])
    (hp : ∀ q ∈ pending, q ∈ pending')
    (hfate : ∃ f, (events ++ j).Tells policy pending' m readAt f)
    (hunderway : ∀ q ∈ pending', q ∈ pending ∨ q.raw = m ∧ (events ++ j).Underway readAt q) :
    (events ++ j).Told policy pending' ((m, readAt) :: received) := by
  have hreads' : Journal.reads (events ++ j) = m :: j.reads := by
    rw [reads_append, hreads]
    rfl
  have hne : ∀ r ∈ received, r.1.offset ≠ m.offset := by
    intro r hr heq
    rw [← h.reads, List.map_map] at hm
    exact hm (List.mem_map.2 ⟨r, hr, heq⟩)
  refine ⟨?_, ?_, fun n hn => ?_, fun r hr => ?_, fun q hq => ?_⟩
  · rw [hreads', List.map_cons, h.reads]
  · rw [hreads']
    exact List.nodup_cons.2 ⟨hm, h.distinct⟩
  · rw [hreads', List.map_cons, List.mem_cons, not_or] at hn
    rw [story_append, he n hn.1, List.nil_append, h.unread n hn.2]
  · rcases List.mem_cons.1 hr with rfl | hr
    · exact hfate
    · obtain ⟨f, hf⟩ := h.fates r hr
      exact ⟨f, hf.append (he _ (hne r hr)) fun q hq _ => hp q hq⟩
  · rcases hunderway q hq with hq | ⟨rfl, hu⟩
    · obtain ⟨readAt, hr, hu⟩ := h.underway q hq
      exact ⟨readAt, List.mem_cons_of_mem _ hr, hu.append (he _ (hne _ hr))⟩
    · exact ⟨readAt, List.mem_cons_self, hu⟩

theorem mem_cons_of_offset_ne {n : InFlight Order} (h : n.offset ≠ q.offset) :
    n ∈ q :: pending ↔ n ∈ pending :=
  List.mem_cons.trans (or_iff_right fun heq => h (congrArg _ heq))

/-- The events are about a message under way. -/
theorem attempt (h : j.Told policy pending received) (hq : q ∈ pending) (events : Journal)
    (hreads : events.reads = []) (he : ∀ n, n ≠ q.offset → events.story n = [])
    (hp : ∀ n, n.offset ≠ q.offset → (n ∈ pending' ↔ n ∈ pending))
    (hfate : ∀ readAt, j.Underway readAt q →
      ∃ f, (events ++ j).Tells policy pending' q.raw readAt f)
    (hunderway : ∀ n ∈ pending', n.offset = q.offset → n.raw = q.raw ∧
      ∀ readAt, j.Underway readAt q → (events ++ j).Underway readAt n) :
    (events ++ j).Told policy pending' received := by
  have hreads' : Journal.reads (events ++ j) = j.reads := by
    rw [reads_append, hreads, List.nil_append]
  obtain ⟨readAt, hr, hu⟩ := h.underway q hq
  refine ⟨hreads' ▸ h.reads, hreads' ▸ h.distinct, fun n hn => ?_, fun s hs => ?_, fun n hn => ?_⟩
  · rw [hreads'] at hn
    have hne : n ≠ q.offset := fun heq => hn (heq ▸ h.mem_reads hq)
    rw [story_append, he n hne, List.nil_append, h.unread n hn]
  · by_cases hs' : s.1.offset = q.offset
    · obtain rfl := h.eq_of_offset_eq hs hr hs'
      exact hfate _ hu
    · obtain ⟨f, hf⟩ := h.fates s hs
      refine ⟨f, hf.append (he _ hs') fun n hn hraw => (hp n ?_).2 hn⟩
      rw [InFlight.offset, hraw]
      exact hs'
  · by_cases hn' : n.offset = q.offset
    · obtain ⟨hraw, hunderway⟩ := hunderway n hn hn'
      exact ⟨readAt, hraw ▸ hr, hunderway readAt hu⟩
    · obtain ⟨s, hs, hu⟩ := h.underway n ((hp n hn').1 hn)
      exact ⟨s, hs, hu.append (he _ hn')⟩

/-! ### What is told after each kind of step -/

theorem perm (h : j.Told policy pending received) (hp : pending'.Perm pending) :
    j.Told policy pending' received :=
  h.append [] rfl (fun _ => rfl) fun _ => hp.mem_iff

theorem refuse (h : j.Told policy pending received) (hm : m.offset ∉ j.reads.map (·.offset))
    {e : Json.Error} (payload : Order.ofBytes m.payload = .error e) :
    Journal.Told policy (.sending (m.letter readAt 0 .undecodable e.message) :: .read m :: j)
      pending ((m, readAt) :: received) := by
  refine h.read hm [.sending _, .read m] rfl (fun n hn => ?_) (fun _ => id) ?_
    fun q hq => .inl hq
  · exact story_cons_of_not_concerns (beq_false_of_ne hn.symm)
  · refine ⟨.undecodable, .undecodable e payload ?_⟩
    rw [List.cons_append, story_cons_of_concerns (beq_self_eq_true _)]
    exact congrArg _ (h.unread _ hm)

theorem reject (h : j.Told policy pending received) (hm : m.offset ∉ j.reads.map (·.offset))
    {o : Order} (payload : Order.ofBytes m.payload = .ok o) {e : ValidationError}
    (broken : o.validate readAt = .error e) (now : Time) :
    Journal.Told policy (.sending (m.letter readAt 0 .invalid e.text) ::
      .offered (.fresh m o) now :: .read m :: j) pending ((m, readAt) :: received) := by
  refine h.read hm [.sending _, .offered _ _, .read m] rfl (fun n hn => ?_)
    (fun _ => id) ?_ fun q hq => .inl hq
  · exact story_cons_of_not_concerns (beq_false_of_ne hn.symm)
  · refine ⟨.invalid, .invalid o payload e broken ?_⟩
    rw [List.cons_append, story_cons_of_concerns (beq_self_eq_true _)]
    exact congrArg _ (h.unread _ hm)

theorem accept (h : j.Told policy pending received) (hm : m.offset ∉ j.reads.map (·.offset))
    {o : Order} (payload : Order.ofBytes m.payload = .ok o) (valid : o.validate readAt = .ok ())
    (now : Time) :
    Journal.Told policy (.offered (.fresh m o) now :: .read m :: j) (.fresh m o :: pending)
      ((m, readAt) :: received) := by
  have hstory : story (.offered (.fresh m o) now :: .read m :: j) m.offset = [] := h.unread _ hm
  have hu : Journal.Underway (.offered (.fresh m o) now :: .read m :: j) readAt (.fresh m o) := by
    refine ⟨payload, valid, ?_, [], ?_, rfl⟩
    · exact congrArg Journal.letters hstory
    · exact congrArg Journal.answers hstory
  refine h.read hm [.offered _ _, .read m] rfl (fun n hn => rfl)
    (fun q hq => List.mem_cons_of_mem _ hq) ?_ fun q hq => ?_
  · exact ⟨.unsettled, .unsettled _ rfl List.mem_cons_self hu (Nat.zero_le _)⟩
  · rcases List.mem_cons.1 hq with rfl | hq
    · exact .inr ⟨rfl, hu⟩
    · exact .inl hq

theorem call (h : j.Told policy pending received) (hd : (pending.map (·.offset)).Nodup)
    (hq : q ∈ pending) (htries : q.tries ≤ policy.maxRetries) :
    Journal.Told policy (.calling q :: j) pending received := by
  have hu : ∀ readAt, j.Underway readAt q → Journal.Underway (.calling q :: j) readAt q := by
    intro readAt hu
    have hstory : story (.calling q :: j) q.offset = .calling q :: j.story q.offset :=
      story_cons_of_concerns (beq_self_eq_true _)
    refine ⟨hu.payload, hu.valid, ?_, ?_⟩
    · rw [hstory]
      exact hu.letters
    · rw [hstory]
      exact hu.answers
  refine h.attempt hq [.calling q] rfl (fun n hn => ?_) (fun _ _ => .rfl)
    (fun readAt h => ⟨.unsettled, .unsettled q rfl hq (hu readAt h) htries⟩) fun n hn he => ?_
  · exact story_cons_of_not_concerns (beq_false_of_ne hn.symm)
  · obtain rfl := List.inj_on_of_nodup_map hd hn hq he
    exact ⟨rfl, hu⟩

/-- An attempt has succeeded, and the message is no longer under way. -/
theorem succeed (h : j.Told policy (q :: pending) received)
    (hd : q.offset ∉ pending.map (·.offset)) (htries : q.tries ≤ policy.maxRetries) :
    Journal.Told policy (.committing q.raw :: .answered q none :: j) pending received := by
  refine h.attempt List.mem_cons_self [.committing q.raw, .answered q none] rfl
    (fun n hn => ?_) (fun n hn => (mem_cons_of_offset_ne hn).symm) (fun readAt hu => ?_)
    fun n hn he => ?_
  · change story [.answered q none] n = []
    exact story_cons_of_not_concerns (beq_false_of_ne hn.symm)
  · obtain ⟨es, hes, hlength⟩ := hu.answers
    have hstory := story_answered q none j
    refine ⟨.processed, .processed q.value hu.payload hu.valid es (hlength ▸ htries) ?_ ?_⟩
    · exact (congrArg Journal.answers hstory).trans (congrArg _ hes)
    · exact (congrArg Journal.letters hstory).trans hu.letters
  · exact absurd (List.mem_map.2 ⟨n, hn, he⟩) hd

/-- An attempt has failed, and the message waits for the next one. -/
theorem postpone (h : j.Told policy (q :: pending) received)
    (hd : q.offset ∉ pending.map (·.offset)) (htries : q.tries + 1 ≤ policy.maxRetries)
    (e : OrderError) (now : Time) (backoff : Nat) :
    Journal.Told policy (.scheduled (q.retry now backoff) now :: .answered q (some e) :: j)
      (q.retry now backoff :: pending) received := by
  have hu : ∀ readAt, j.Underway readAt q → Journal.Underway
      (.scheduled (q.retry now backoff) now :: .answered q (some e) :: j) readAt
        (q.retry now backoff) := by
    intro readAt hu
    obtain ⟨es, hes, hlength⟩ := hu.answers
    have hstory := story_answered q (some e) j
    refine ⟨hu.payload, hu.valid, ?_, e :: es, ?_, congrArg (· + 1) hlength⟩
    · exact (congrArg Journal.letters hstory).trans hu.letters
    · exact (congrArg Journal.answers hstory).trans (congrArg _ hes)
  refine h.attempt List.mem_cons_self [.scheduled _ _, .answered q (some e)] rfl
    (fun n hn => ?_)
    (fun n hn => (mem_cons_of_offset_ne (q := q.retry now backoff) hn).trans
      (mem_cons_of_offset_ne hn).symm)
    (fun readAt h => ⟨.unsettled,
      .unsettled (q.retry now backoff) rfl List.mem_cons_self (hu readAt h) htries⟩)
    fun n hn he => ?_
  · change story [.answered q (some e)] n = []
    exact story_cons_of_not_concerns (beq_false_of_ne hn.symm)
  · rcases List.mem_cons.1 hn with rfl | hn
    · exact ⟨rfl, hu⟩
    · exact absurd (List.mem_map.2 ⟨n, hn, he⟩) hd

/-- An attempt has failed, and the message is dead-lettered; the letter tells its fate. -/
theorem bury (h : j.Told policy (q :: pending) received)
    (hd : q.offset ∉ pending.map (·.offset)) (e : OrderError) {l : DeadLetter}
    (hl : l.offset = q.offset)
    (hfate : ∀ readAt (es : List OrderError), Order.ofBytes q.raw.payload = .ok q.value →
      q.value.validate readAt = .ok () → es.length = q.tries →
      (story (.sending l :: .answered q (some e) :: j) q.offset).answers = (e :: es).map some →
      (story (.sending l :: .answered q (some e) :: j) q.offset).letters = [l] →
      ∃ f, Journal.Tells policy (.sending l :: .answered q (some e) :: j) pending q.raw readAt f) :
    Journal.Told policy (.sending l :: .answered q (some e) :: j) pending received := by
  have hstory : story (.sending l :: .answered q (some e) :: j) q.offset =
      .sending l :: .answered q (some e) :: j.story q.offset := by
    rw [story_cons_of_concerns (e := .sending l) (beq_iff_eq.2 hl), story_answered]
  refine h.attempt List.mem_cons_self [.sending l, .answered q (some e)] rfl
    (fun n hn => ?_) (fun n hn => (mem_cons_of_offset_ne hn).symm) (fun readAt hu => ?_)
    fun n hn he => ?_
  · rw [story_cons_of_not_concerns (e := .sending l) (beq_false_of_ne (hl ▸ hn.symm))]
    exact story_cons_of_not_concerns (beq_false_of_ne hn.symm)
  · obtain ⟨es, hes, hlength⟩ := hu.answers
    refine hfate readAt es hu.payload hu.valid hlength ?_ ?_
    · exact (congrArg Journal.answers hstory).trans (congrArg _ hes)
    · exact (congrArg Journal.letters hstory).trans (congrArg _ hu.letters)
  · exact absurd (List.mem_map.2 ⟨n, hn, he⟩) hd

theorem exhaust (h : j.Told policy (q :: pending) received)
    (hd : q.offset ∉ pending.map (·.offset)) (htries : q.tries = policy.maxRetries)
    (e : OrderError) (deadAt : Timestamp) :
    Journal.Told policy
      (.sending (q.raw.letter deadAt (q.tries + 1) .maxRetriesExceeded e.text) ::
        .answered q (some e) :: j) pending received := by
  refine h.bury hd e rfl fun readAt es hpayload hvalid hlength hanswers hletters => ?_
  refine ⟨.exhausted, .exhausted q.value hpayload hvalid e es (hlength.trans htries) hanswers deadAt
    (hletters.trans ?_)⟩
  rw [htries]

theorem overflow (h : j.Told policy (q :: pending) received)
    (hd : q.offset ∉ pending.map (·.offset)) (htries : q.tries + 1 ≤ policy.maxRetries)
    (hfull : j.waiting = policy.capacity) (e : OrderError) (deadAt : Timestamp) :
    Journal.Told policy (.sending (q.raw.letter deadAt (q.tries + 1) .retryOverflow e.text) ::
      .answered q (some e) :: j) pending received := by
  refine h.bury hd e rfl fun readAt es hpayload hvalid hlength hanswers hletters => ?_
  rw [← hlength] at htries hanswers hletters ⊢
  exact ⟨.overflowed, .overflowed q.value hpayload hvalid e es htries hanswers deadAt hletters
    (.answered q (some e) :: j) (List.suffix_refl _) hfull⟩

end Told

/-! ### Failures while the backlog is full -/

/-- Whenever an attempt that was not the last one failed while the backlog was full, the sink was
given a letter about it. -/
def Overflows (policy : RetryPolicy) (j : Journal) : Prop :=
  ∀ (q : InFlight Order) (e : OrderError) (older : Journal),
    .answered q (some e) :: older <:+ j → q.tries + 1 ≤ policy.maxRetries →
      older.waiting = policy.capacity →
      ∃ deadAt, .sending (q.raw.letter deadAt (q.tries + 1) .retryOverflow e.text) ∈ j

theorem Overflows.append (h : j.Overflows policy) (events : Journal)
    (he : events.any Event.isFailure = false) :
    (events ++ j).Overflows policy := by
  have hsuffix : ∀ (q : InFlight Order) (e : OrderError) (older : Journal),
      .answered q (some e) :: older <:+ events ++ j → .answered q (some e) :: older <:+ j := by
    intro q e older hs
    induction events with
    | nil => exact hs
    | cons x events ih =>
      rw [List.any_cons, Bool.or_eq_false_iff] at he
      rcases List.suffix_cons_iff.1 hs with heq | hs
      · rw [← (List.cons.inj heq).1] at he
        cases he.1
      · exact ih he.2 hs
  intro q e older hs htries hfull
  obtain ⟨deadAt, hletter⟩ := h q e older (hsuffix q e older hs) htries hfull
  exact ⟨deadAt, List.mem_append_right _ hletter⟩

/-- An attempt has failed, and `x` is what was done about its message. -/
theorem Overflows.answered (h : j.Overflows policy) {e : OrderError} {x : Event}
    (hx : x.isFailure = false)
    (hletter : q.tries + 1 ≤ policy.maxRetries → j.waiting = policy.capacity →
      ∃ deadAt, x = .sending (q.raw.letter deadAt (q.tries + 1) .retryOverflow e.text)) :
    Journal.Overflows policy (x :: .answered q (some e) :: j) := by
  intro n d older hs htries hfull
  rcases List.suffix_cons_iff.1 hs with heq | hs
  · rw [← (List.cons.inj heq).1] at hx
    cases hx
  rcases List.suffix_cons_iff.1 hs with heq | hs
  · cases heq
    obtain ⟨deadAt, rfl⟩ := hletter htries hfull
    exact ⟨deadAt, List.mem_cons_self⟩
  · obtain ⟨deadAt, hmem⟩ := h n d older hs htries hfull
    exact ⟨deadAt, List.mem_cons_of_mem _ (List.mem_cons_of_mem _ hmem)⟩

end Journal

/-! ## Steps of a pipeline -/

namespace Pipeline

variable {policy : RetryPolicy} {p p' : Pipeline} {i : Inlet} {clock : Clock} {q : InFlight Order}
  {heard : Option (InFlight Order × Option OrderError)}
  {received : List (RawMessage × Timestamp)}

/-- A message that comes again passes validation, since it did when it was read. -/
theorem valid_again (h : p.source.journal.Told policy p.pending received)
    (hpast : ∀ r ∈ received, r.2.le clock.wall) (hq : q ∈ p.pending) :
    q.value.validate clock.wall = .ok () := by
  obtain ⟨readAt, hr, hu⟩ := h.underway q hq
  exact Order.validate_mono hu.valid (hpast _ hr)

/-- Every step tells what it does to a message; `new` is what it has read, if anything. -/
theorem Move.told (hm : p.Move clock p' heard) (hs : p.Sound policy i)
    (hc : p.source.Counted policy) (h : p.source.journal.Told policy p.pending received)
    (hpast : ∀ r ∈ received, r.2.le clock.wall)
    (hreads : (p'.source.journal.reads.map (·.offset)).Nodup) :
    ∃ new : List RawMessage, p'.source.journal.reads = new ++ p.source.journal.reads ∧
      p'.source.journal.Told policy p'.pending (new.map (·, clock.wall) ++ received) := by
  have hkept : p.source.policy = policy := hs.attended.ledger.kept
  cases hm with
  | rest source active =>
    obtain ⟨events, hquiet, he⟩ := source
    refine ⟨[], ?_, ?_⟩
    · rw [he]
      exact (Journal.reads_append ..).trans
        (congrArg (· ++ _) (Journal.reads_of_isQuiet hquiet))
    · rw [pending, he]
      refine h.append events (Journal.reads_of_isQuiet hquiet) (fun n => ?_) fun q => ?_
      · exact Journal.story_of_not_concerns fun e he => Event.concerns_of_isQuiet (hquiet e he) n
      · exact (active.append_right _).mem_iff
  | refuse m e payload source active =>
    rw [source] at hreads
    rw [pending, source]
    exact ⟨[m], rfl, (h.refuse (List.nodup_cons.1 hreads).1 payload).perm
      (active.append_right _)⟩
  | accept q taken valid active =>
    rw [pending]
    generalize p'.source = s at taken hreads
    cases taken with
    | fresh m o payload =>
      exact ⟨[m], rfl, (h.accept (List.nodup_cons.1 hreads).1 payload valid clock.now).perm
        (active.append_right _)⟩
    | again _ backlog due =>
      refine ⟨[], rfl, h.append [.offered q clock.now] rfl (fun _ => rfl) fun n => ?_⟩
      have hp : (p'.active ++ backlog.messages).Perm p.pending := by
        rw [pending, Backlog.messages_popEligible due]
        exact (active.append_right _).trans List.perm_middle.symm
      exact hp.mem_iff
  | reject q s taken e invalid source active =>
    rw [source] at hreads
    rw [pending, source]
    cases taken with
    | fresh m o payload =>
      exact ⟨[m], rfl, (h.reject (List.nodup_cons.1 hreads).1 payload invalid clock.now).perm
        (active.append_right _)⟩
    | again _ backlog due =>
      have hq : q ∈ p.pending := by
        rw [pending, Backlog.messages_popEligible due]
        exact List.mem_append_right _ List.mem_cons_self
      rw [valid_again h hpast hq] at invalid
      cases invalid
  | call q held source active =>
    have hq : q ∈ p.pending := List.mem_append_left _ held
    rw [pending, source]
    exact ⟨[], rfl, (h.call hs.pending_nodup hq (hs.tries_le hq)).perm (active.append_right _)⟩
  | succeed q source active =>
    have hp : (q :: (p'.active ++ p.source.backlog.messages)).Perm p.pending :=
      (active.append_right _).symm
    have hd := ((hp.map (·.offset)).nodup_iff).2 hs.pending_nodup
    rw [pending, source]
    exact ⟨[], rfl, (h.perm hp).succeed (List.nodup_cons.1 hd).1
      (hs.tries_le (hp.mem_iff.1 List.mem_cons_self))⟩
  | fail q e source active =>
    have hp : (q :: (p'.active ++ p.source.backlog.messages)).Perm p.pending :=
      (active.append_right _).symm
    have hd := (List.nodup_cons.1 (((hp.map (·.offset)).nodup_iff).2 hs.pending_nodup)).1
    have htries := hs.tries_le (hp.mem_iff.1 List.mem_cons_self)
    rw [pending, source]
    rcases (p.source.record (.answered q (some e))).onFail_cases clock q e.text with
      ⟨hmax, he⟩ | ⟨hmax, backlog, hpush, he⟩ | ⟨hmax, hpush, he⟩
    · have hlast : q.tries = policy.maxRetries :=
        Nat.le_antisymm htries (Nat.le_of_lt_succ (hkept ▸ hmax))
      rw [he]
      exact ⟨[], rfl, (h.perm hp).exhaust hd hlast e clock.wall⟩
    · rw [he]
      refine ⟨[], rfl, ((h.perm hp).postpone hd (hkept ▸ hmax) e clock.now _).perm ?_⟩
      exact ((Backlog.messages_push hpush).append_left _).trans List.perm_middle
    · have hfull : p.source.journal.waiting = policy.capacity := by
        refine hc.waiting.symm.trans (Nat.le_antisymm hc.within ?_)
        rw [← hc.capacity]
        exact Backlog.push_of_none hpush
      rw [he]
      exact ⟨[], rfl, (h.perm hp).overflow hd (hkept ▸ hmax) hfull e clock.wall⟩

/-- Every step leaves a letter about a failure that finds the backlog full. -/
theorem Move.overflows (hm : p.Move clock p' heard) (hkept : p.source.policy = policy)
    (hc : p.source.Counted policy) (h : p.source.journal.Overflows policy) :
    p'.source.journal.Overflows policy := by
  have htakes : ∀ {q s}, p.source.Takes clock q s → s.journal.Overflows policy := by
    intro q s taken
    cases taken with
    | fresh m o payload => exact h.append [.offered _ _, .read m] rfl
    | again _ backlog due => exact h.append [.offered q clock.now] rfl
  cases hm with
  | rest source active =>
    obtain ⟨events, hquiet, he⟩ := source
    rw [he]
    refine h.append events (List.any_eq_false.2 fun x hx => ?_)
    rw [Event.isFailure_of_isQuiet (hquiet x hx)]
    exact Bool.false_ne_true
  | refuse m e payload source active =>
    rw [source]
    exact h.append [.sending _, .read m] rfl
  | accept q taken valid active => exact htakes taken
  | reject q s taken e invalid source active =>
    rw [source]
    exact (htakes taken).append [.sending _] rfl
  | call q held source active =>
    rw [source]
    exact h.append [.calling q] rfl
  | succeed q source active =>
    rw [source]
    exact h.append [.committing q.raw, .answered q none] rfl
  | fail q e source active =>
    rw [source]
    rcases (p.source.record (.answered q (some e))).onFail_cases clock q e.text with
      ⟨hmax, he⟩ | ⟨hmax, backlog, hpush, he⟩ | ⟨hmax, hpush, he⟩
    · rw [he]
      exact h.answered rfl fun htries _ =>
        absurd (hkept ▸ hmax) (Nat.not_lt_of_le htries)
    · rw [he]
      refine h.answered rfl fun _ hfull => ?_
      have hroom := (Backlog.push_of_some hpush).1
      rw [show (p.source.record _).backlog = p.source.backlog from rfl, hc.waiting, hfull,
        hc.capacity] at hroom
      exact absurd hroom (Nat.lt_irrefl _)
    · rw [he]
      exact h.answered rfl fun _ _ => ⟨clock.wall, rfl⟩

end Pipeline

/-! ## A calendar clock that never goes back -/

/-- An intake, with the times at which its messages were read. -/
structure Watch where
  intake : Intake
  /-- The calendar time of the latest step. -/
  wall : Timestamp
  /-- The messages that were read, each with the calendar time then, the latest first. -/
  received : List (RawMessage × Timestamp) := []

namespace Watch

def journal (w : Watch) : Journal := w.intake.pipeline.source.journal

def pending (w : Watch) : List (InFlight Order) := w.intake.pipeline.pending

/-- The intake has gone on at this time; what its journal has read besides was read now. -/
def advance (w : Watch) (wall : Timestamp) (intake : Intake) : Watch where
  intake
  wall
  received :=
    let reads := intake.pipeline.source.journal.reads
    (reads.take (reads.length - w.received.length)).map (·, wall) ++ w.received

/-- One step of the intake; `none` as well if the calendar clock would go back. -/
def step (w : Watch) (action : Intake.Action) : Option Watch :=
  let wall := (action.clock?.map (·.wall)).getD w.wall
  if w.wall.le wall then (w.intake.step action).map (w.advance wall) else none

def new (policy : RetryPolicy) (errorBackoff capacity pollWindow : Nat) (signal : Bool)
    (start : Timestamp) : Watch where
  intake := .new policy errorBackoff capacity pollWindow signal
  wall := start

/-- The actions in this order; those that nobody can take are left out. -/
def run (w : Watch) (actions : List Intake.Action) : Watch :=
  runSteps step w actions

structure Sound (policy : RetryPolicy) (w : Watch) : Prop where
  intake : w.intake.Sound policy
  counted : w.intake.pipeline.source.Counted policy
  told : w.journal.Told policy w.pending w.received
  overflows : w.journal.Overflows policy
  paired : w.journal.Paired w.intake.pipeline.processing
  past : ∀ r ∈ w.received, r.2.le w.wall

variable {policy : RetryPolicy} {w w' : Watch} {action : Intake.Action}

theorem sound_new (policy : RetryPolicy) (errorBackoff capacity pollWindow : Nat)
    (signal : Bool) (start : Timestamp) :
    (new policy errorBackoff capacity pollWindow signal start).Sound policy where
  intake := Intake.sound_new policy errorBackoff capacity pollWindow signal
  counted := .new policy
  told := ⟨rfl, .nil, fun _ _ => rfl, fun _ h => (nomatch h), fun _ h => nomatch h⟩
  overflows _ _ _ h := nomatch List.suffix_nil.1 h
  paired _ := rfl
  past _ h := nomatch h

/-- The messages that a step has read are those that its journal has besides. -/
theorem received_advance (h : w.Sound policy) {wall : Timestamp} {intake : Intake}
    {new : List RawMessage} (hnew : intake.pipeline.source.journal.reads = new ++ w.journal.reads) :
    (w.advance wall intake).received = new.map (·, wall) ++ w.received := by
  have hlength : w.received.length = w.journal.reads.length := by
    rw [← h.told.reads, List.length_map]
  rw [advance]
  dsimp only
  rw [hnew, List.length_append, hlength, Nat.add_sub_cancel, List.take_left]

theorem Sound.step (h : w.Sound policy) (hs : w.step action = some w') : w'.Sound policy := by
  unfold Watch.step at hs
  dsimp only at hs
  split at hs
  case isFalse => cases hs
  case isTrue hle =>
  obtain ⟨x, hx, rfl⟩ := Option.map_eq_some_iff.1 hs
  have hsound := h.intake.step hx
  have hreads : (x.pipeline.source.journal.reads.map (·.offset)).Nodup :=
    Served.reads_nodup hsound.attended
  generalize hwall : (action.clock?.map (·.wall)).getD w.wall = wall at hle
  have hpast : ∀ r ∈ w.received, r.2.le wall :=
    fun r hr => Timestamp.le_trans (h.past r hr) hle
  suffices hgoes : x.pipeline.source.Counted policy ∧
      x.pipeline.source.journal.Overflows policy ∧
      x.pipeline.source.journal.Paired x.pipeline.processing ∧ ∃ new,
      x.pipeline.source.journal.reads = new ++ w.journal.reads ∧
      x.pipeline.source.journal.Told policy x.pipeline.pending
        (new.map (·, wall) ++ w.received) by
    obtain ⟨hcounted, hoverflows, hpaired, new, hnew, htold⟩ := hgoes
    have hreceived : (w.advance wall x).received = _ := received_advance h hnew
    refine ⟨hsound, hcounted, hreceived ▸ htold, hoverflows, hpaired, fun r hr => ?_⟩
    rw [hreceived] at hr
    rcases List.mem_append.1 hr with hr | hr
    · obtain ⟨m, -, rfl⟩ := List.mem_map.1 hr
      exact Timestamp.le_refl _
    · exact hpast r hr
  rcases Intake.move_step h.intake hx with ⟨clock, hclock, hm⟩ | ⟨-, -, hsource, hdispatches⟩
  · obtain rfl : clock.wall = wall := by
      rw [← hwall, hclock]
      rfl
    exact ⟨h.counted.move hm, hm.overflows h.intake.attended.ledger.kept h.counted h.overflows,
      hm.paired h.paired, hm.told h.intake h.counted h.told hpast hreads⟩
  · have hpending : x.pipeline.pending = w.pending := by
      rw [pending, Pipeline.pending, Pipeline.pending, Pipeline.active, Pipeline.active, hsource,
        hdispatches]
    have hprocessing : x.pipeline.processing = w.intake.pipeline.processing := by
      rw [Pipeline.processing, Pipeline.processing, hdispatches]
    rw [hsource, hpending, hprocessing]
    exact ⟨h.counted, h.overflows, h.paired, [], rfl, h.told⟩

theorem Sound.run (h : w.Sound policy) (actions : List Intake.Action) :
    (w.run actions).Sound policy :=
  runSteps_keeps (fun h hs => h.step hs) h actions

/-- What goes on between the pipeline and its surroundings in these actions, the latest first. -/
def dealings (w : Watch) (actions : List Intake.Action) : Journal :=
  tellSteps step (fun w action w' => w.intake.deals action w'.intake) w actions

theorem dealings_step (hs : w.step action = some w') :
    w'.journal.dealings = w.intake.deals action w'.intake ++ w.journal.dealings := by
  unfold Watch.step at hs
  dsimp only at hs
  split at hs
  case isFalse => cases hs
  case isTrue =>
  obtain ⟨x, hx, rfl⟩ := Option.map_eq_some_iff.1 hs
  exact Intake.dealings_step hx

/-- A pipeline that has just been started keeps a journal that is true to its dealings. -/
theorem dealings_run (policy : RetryPolicy) (errorBackoff capacity pollWindow : Nat)
    (signal : Bool) (start : Timestamp) (actions : List Intake.Action) :
    ((new policy errorBackoff capacity pollWindow signal start).run actions).journal.dealings =
      (new policy errorBackoff capacity pollWindow signal start).dealings actions :=
  (record_runSteps (fun w : Watch => w.journal.dealings) dealings_step _ actions).trans
    (List.append_nil _)

/-! ## Fates -/

/-- What is told of every message after these dealings with the surroundings, and of the backlog and
the letters that decide it. -/
structure Fates (policy : RetryPolicy) (w : Watch) (dealings : Journal) : Prop where
  /-- What the journal tells of the processor, the sink and the transport is what went on. -/
  faithful : w.journal.dealings = dealings
  published : w.intake.inlet.published.Perm
    (w.received.map Prod.fst ++ w.intake.inlet.channel.queue)
  distinct : (w.received.map (·.1.offset)).Nodup
  /-- Every message that was read has one fate, and one only. -/
  fates : ∀ r ∈ w.received, ∃! f, w.journal.Tells policy w.pending r.1 r.2 f
  /-- Nothing has happened to an offset that was not read. -/
  unread : ∀ n, n ∉ w.received.map (·.1.offset) → w.journal.story n = []
  /-- What is on its way through the processor or in the backlog is not settled. -/
  underway : ∀ q ∈ w.pending, ∃ readAt, (q.raw, readAt) ∈ w.received ∧
    w.journal.Tells policy w.pending q.raw readAt .unsettled
  /-- A failure that finds the backlog full is the last one of its message. -/
  overflows : w.journal.Overflows policy
  /-- Every attempt is answered: but for a message that the processor is working on, the answers in
  its story are its dispatches. -/
  calls : w.journal.Paired w.intake.pipeline.processing
  /-- A message that passed validation is not dead-lettered for breaking a rule. -/
  passed : ∀ r ∈ w.received, ∀ o, Order.ofBytes r.1.payload = .ok o → o.validate r.2 = .ok () →
    ∀ l ∈ w.journal.letters, l.offset = r.1.offset → l.reason ≠ .invalid
  /-- The journal tells how many messages the backlog holds. -/
  backlog : w.intake.pipeline.source.backlog.size = w.journal.waiting
  /-- A sink in memory that is given the letters of these dealings keeps the most recent ones. -/
  retained : ∀ capacity,
    (Sink.sendAll (.memory capacity []) dealings.letters.reverse).letters =
      w.journal.letters.reverse.rtake capacity

/-- A message whose order kept the rules has no letter that says otherwise. -/
theorem reason_ne_invalid {j : Journal} {pending : List (InFlight Order)} {m : RawMessage}
    {readAt : Timestamp} {f : Fate} (h : j.Tells policy pending m readAt f) {o : Order}
    (hpayload : Order.ofBytes m.payload = .ok o) (hvalid : o.validate readAt = .ok ())
    {l : DeadLetter} (hl : l ∈ j.letters) (hoffset : l.offset = m.offset) :
    l.reason ≠ .invalid := by
  have hstory : l ∈ (j.story m.offset).letters := by
    rw [Journal.letters_story]
    exact List.mem_filter.2 ⟨hl, beq_iff_eq.2 hoffset⟩
  cases h with
  | undecodable e payload story =>
    rw [payload] at hpayload
    cases hpayload
  | invalid o' payload e broken story =>
    rw [payload] at hpayload
    cases hpayload
    rw [broken] at hvalid
    cases hvalid
  | processed _ _ _ _ _ _ letters =>
    rw [letters] at hstory
    cases hstory
  | exhausted _ _ _ _ _ _ _ _ letters | overflowed _ _ _ _ _ _ _ _ letters =>
    rw [letters] at hstory
    rw [List.eq_of_mem_singleton hstory]
    exact fun h => nomatch h
  | unsettled _ raw _ underway _ =>
    rw [← raw, ← InFlight.offset, underway.letters] at hstory
    cases hstory

theorem Sound.fates (h : w.Sound policy) : w.Fates policy w.journal.dealings := by
  have htold : w.journal.Told policy w.pending w.received := h.told
  have hoffsets : w.received.map (·.1.offset) = w.journal.reads.map (·.offset) := by
    rw [← htold.reads, List.map_map]
    rfl
  refine ⟨rfl, ?_, hoffsets ▸ htold.distinct, fun r hr => ?_, fun n hn => ?_, fun q hq => ?_,
    h.overflows, h.paired, fun r hr o hpayload hvalid l hl hoffset => ?_, ?_, fun capacity => ?_⟩
  · rw [htold.reads]
    exact (show Served _ _ _ _ _ from h.intake.attended).inlet.published
  · obtain ⟨f, hf⟩ := htold.fates r hr
    exact ⟨f, hf, fun g hg => hg.eq_fate.trans hf.eq_fate.symm⟩
  · exact htold.unread n (hoffsets ▸ hn)
  · obtain ⟨readAt, hr, hu⟩ := htold.underway q hq
    exact ⟨readAt, hr, .unsettled q rfl hq hu (h.intake.tries_le hq)⟩
  · obtain ⟨f, hf⟩ := htold.fates r hr
    exact reason_ne_invalid hf hpayload hvalid hl hoffset
  · rw [Backlog.size, ← List.length_map (f := Scheduled.message)]
    exact h.counted.waiting
  · rw [Journal.letters_dealings]
    exact Sink.letters_sendAll capacity _

/-- Whatever is published and however the processor and the sink answer, in any order of steps. -/
theorem run_fates (policy : RetryPolicy) (errorBackoff capacity pollWindow : Nat)
    (signal : Bool) (start : Timestamp) (actions : List Intake.Action) :
    ((new policy errorBackoff capacity pollWindow signal start).run actions).Fates policy
      ((new policy errorBackoff capacity pollWindow signal start).dealings actions) := by
  rw [← dealings_run]
  exact ((sound_new policy errorBackoff capacity pollWindow signal start).run actions).fates

end Watch

end OrderDesk
