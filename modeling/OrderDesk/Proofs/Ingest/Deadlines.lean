import Mathlib.Data.List.Nodup
import Mathlib.Data.Prod.Lex
import OrderDesk.Proofs.Calls
import OrderDesk.Proofs.Ingest.Ledger

/-!
# The backlog by deadlines

A backlog keeps its messages in the order in which they are due. `Waitlist` is the plain account of
it: the messages it holds, in no order that matters, and the least of them found by looking at all.
Whatever is pushed and popped at whatever moments, a backlog answers as the waitlist does, and
popping it again and again gives the messages that are due by their deadlines, equal ones by their
insertion (`Backlog.run_eq_waitlist`).
-/

namespace OrderDesk

/-! ## Calls and replies -/

/-- A call on a backlog. The moments of calls may come in any order. -/
inductive BacklogCall (α : Type) where
  | push (now : Time) (message : InFlight α)
  | popEligible (now : Time)
  | nextRetryAt
  | size
  | isEmpty
  | isFull

inductive BacklogReply (α : Type) where
  | pushed
  /-- There was no room, and the message is given back. -/
  | back (message : InFlight α)
  | popped (message? : Option (InFlight α))
  | due (moment? : Option Time)
  | size (n : Nat)
  | flag (b : Bool)

def Backlog.call {α : Type} (b : Backlog α) : BacklogCall α → BacklogReply α × Backlog α
  | .push now m =>
    match b.push now m with
    | some b => (.pushed, b)
    | none => (.back m, b)
  | .popEligible now =>
    match b.popEligible now with
    | some (m, b) => (.popped (some m), b)
    | none => (.popped none, b)
  | .nextRetryAt => (.due b.nextRetryAt?, b)
  | .size => (.size b.size, b)
  | .isEmpty => (.flag b.isEmpty, b)
  | .isFull => (.flag b.isFull, b)

/-- The messages that wait, each with its deadline and the number of its insertion. -/
structure Waitlist (α : Type) where
  held : List (Scheduled α)
  capacity : Nat
  inserted : Nat

namespace Waitlist

variable {α : Type}

def new (capacity : Nat) : Waitlist α := ⟨[], capacity, 0⟩

/-- The message that none comes before. -/
def first? (w : Waitlist α) : Option (Scheduled α) :=
  w.held.find? fun s => w.held.all fun t => !t.before s

def call (w : Waitlist α) : BacklogCall α → BacklogReply α × Waitlist α
  | .push now m =>
    if w.held.length < w.capacity then
      (.pushed, { w with
        held := w.held ++ [⟨m.retryAfter.getD now, w.inserted, m⟩]
        inserted := w.inserted + 1 })
    else (.back m, w)
  | .popEligible now =>
    match w.first? with
    | some s =>
      if s.due ≤ now then
        (.popped (some s.message), { w with held := w.held.filter (·.seq != s.seq) })
      else (.popped none, w)
    | none => (.popped none, w)
  | .nextRetryAt => (.due (w.held.map (·.due)).min?, w)
  | .size => (.size w.held.length, w)
  | .isEmpty => (.flag w.held.isEmpty, w)
  | .isFull => (.flag (w.capacity ≤ w.held.length), w)

end Waitlist

/-! ## The order of messages -/

namespace Scheduled

variable {α : Type} {s t u : Scheduled α}

/-- Messages come by their deadlines, and by their insertions at equal ones. -/
def key (s : Scheduled α) : Nat ×ₗ Nat := toLex (s.due, s.seq)

theorem before_iff : s.before t = true ↔ s.key < t.key := by
  rw [key, key, Prod.Lex.toLex_lt_toLex]
  simp [before]

theorem before_trans (hst : s.before t = true) (htu : t.before u = true) :
    s.before u = true :=
  before_iff.2 ((before_iff.1 hst).trans (before_iff.1 htu))

theorem before_asymm (hst : s.before t = true) : t.before s = false :=
  Bool.eq_false_iff.2 fun hts => (before_iff.1 hst).asymm (before_iff.1 hts)

theorem before_irrefl (s : Scheduled α) : s.before s = false :=
  Bool.eq_false_iff.2 fun hs => (before_iff.1 hs).false

theorem before_of_not (hne : s.seq ≠ t.seq) (hst : s.before t = false) : t.before s = true := by
  rcases lt_trichotomy s.key t.key with hlt | heq | hgt
  · exact absurd (before_iff.2 hlt) (Bool.eq_false_iff.1 hst)
  · exact absurd (congrArg (fun k => (ofLex k).2) heq) hne
  · exact before_iff.2 hgt

theorem le_of_before (hst : s.before t = true) : s.due ≤ t.due := by
  rcases Prod.Lex.toLex_lt_toLex.1 (before_iff.1 hst) with hlt | ⟨heq, -⟩
  · exact Nat.le_of_lt hlt
  · exact Nat.le_of_eq heq

end Scheduled

namespace Backlog

variable {α : Type} {b : Backlog α} {w : Waitlist α} {s : Scheduled α} {now : Time}
  {l rest : List (Scheduled α)}

/-- Every message comes before those behind it. -/
def Sorted (l : List (Scheduled α)) : Prop := l.Pairwise fun s t => s.before t = true

theorem sorted_insertSorted (h : Sorted l) (hs : ∀ t ∈ l, t.seq ≠ s.seq) :
    Sorted (insertSorted s l) := by
  induction l with
  | nil => exact List.pairwise_singleton _ _
  | cons t ts ih =>
    obtain ⟨ht, hts⟩ := List.pairwise_cons.1 h
    rw [insertSorted]
    split
    next hst =>
      refine List.pairwise_cons.2 ⟨fun u hu => ?_, h⟩
      rcases List.mem_cons.1 hu with rfl | hu
      · exact hst
      · exact Scheduled.before_trans hst (ht u hu)
    next hst =>
      have hbehind : t.before s = true :=
        Scheduled.before_of_not (hs t List.mem_cons_self).symm (Bool.eq_false_iff.2 hst)
      have hrest := ih hts fun u hu => hs u (List.mem_cons_of_mem _ hu)
      refine List.pairwise_cons.2 ⟨fun u hu => ?_, hrest⟩
      rcases List.mem_cons.1 ((insertSorted_perm s ts).mem_iff.1 hu) with rfl | hu
      · exact hbehind
      · exact ht u hu

/-- Up to some place all messages are due at a moment, and none from there on. -/
theorem Sorted.exists_append (h : Sorted l) (now : Time) : ∃ order later, l = order ++ later ∧
    (∀ s ∈ order, s.due ≤ now) ∧ ∀ s ∈ later, now < s.due := by
  induction l with
  | nil => exact ⟨[], [], rfl, nofun, nofun⟩
  | cons s l ih =>
    obtain ⟨hs, hl⟩ := List.pairwise_cons.1 h
    by_cases hdue : s.due ≤ now
    · obtain ⟨order, later, rfl, horder, hlater⟩ := ih hl
      exact ⟨s :: order, later, rfl, List.forall_mem_cons.2 ⟨hdue, horder⟩, hlater⟩
    · have hlater : ∀ t ∈ l, now < t.due := fun t ht =>
        Nat.lt_of_lt_of_le (Nat.lt_of_not_le hdue) (Scheduled.le_of_before (hs t ht))
      exact ⟨[], s :: l, rfl, nofun, List.forall_mem_cons.2 ⟨Nat.lt_of_not_le hdue, hlater⟩⟩

/-! ## Every call -/

/-- The backlog holds the messages of the waitlist, in their order. -/
structure Agrees (b : Backlog α) (w : Waitlist α) : Prop where
  sorted : Sorted b.waiting
  perm : b.waiting.Perm w.held
  numbered : (w.held.map (·.seq)).Nodup
  below : ∀ s ∈ w.held, s.seq < w.inserted
  capacity : b.capacity = w.capacity
  nextSeq : b.nextSeq = w.inserted

theorem agrees_empty (capacity : Nat) : (empty capacity : Backlog α).Agrees (.new capacity) :=
  ⟨.nil, .refl _, List.nodup_nil, nofun, rfl, rfl⟩

theorem Agrees.size (h : b.Agrees w) : b.size = w.held.length := h.perm.length_eq

theorem Agrees.mem_held (h : b.Agrees w) (hw : b.waiting = s :: rest) {t : Scheduled α} :
    t ∈ w.held ↔ t = s ∨ t ∈ rest := by
  rw [← h.perm.mem_iff, hw, List.mem_cons]

/-- The first message is the one that none comes before. -/
theorem Agrees.first? (h : b.Agrees w) : w.first? = b.waiting.head? := by
  cases hw : b.waiting with
  | nil =>
    have hheld : w.held = [] := List.perm_nil.1 (hw ▸ h.perm).symm
    rw [Waitlist.first?, hheld]
    rfl
  | cons s rest =>
    obtain ⟨hs, -⟩ := List.pairwise_cons.1 (hw ▸ h.sorted)
    have hleast : (w.held.all fun t => !t.before s) = true := by
      rw [List.all_eq_true]
      intro t ht
      rw [Bool.not_eq_true']
      rcases (h.mem_held hw).1 ht with rfl | ht
      · exact Scheduled.before_irrefl t
      · exact Scheduled.before_asymm (hs t ht)
    have hsome : w.first?.isSome = true :=
      List.find?_isSome.2 ⟨s, (h.mem_held hw).2 (.inl rfl), hleast⟩
    obtain ⟨t, ht⟩ := Option.isSome_iff_exists.1 hsome
    rw [ht, List.head?_cons]
    rcases (h.mem_held hw).1 (List.mem_of_find?_eq_some ht) with rfl | hrest
    · rfl
    · have hleast : (w.held.all fun u => !u.before t) = true :=
        List.find?_some (p := fun t => w.held.all fun u => !u.before t) ht
      have hfirst := List.all_eq_true.1 hleast s ((h.mem_held hw).2 (.inl rfl))
      rw [hs t hrest] at hfirst
      cases hfirst

theorem Agrees.nextRetryAt? (h : b.Agrees w) : b.nextRetryAt? = (w.held.map (·.due)).min? := by
  rw [Backlog.nextRetryAt?]
  cases hw : b.waiting with
  | nil =>
    have hheld : w.held = [] := List.perm_nil.1 (hw ▸ h.perm).symm
    rw [hheld]
    rfl
  | cons s rest =>
    obtain ⟨hs, -⟩ := List.pairwise_cons.1 (hw ▸ h.sorted)
    symm
    refine List.min?_eq_some_iff.2 ⟨?_, fun due hdue => ?_⟩
    · exact List.mem_map_of_mem ((h.mem_held hw).2 (.inl rfl))
    · obtain ⟨t, ht, rfl⟩ := List.mem_map.1 hdue
      rcases (h.mem_held hw).1 ht with rfl | ht
      · exact Nat.le_refl _
      · exact Scheduled.le_of_before (hs t ht)

theorem Agrees.push (h : b.Agrees w) (now : Time) (m : InFlight α) :
    (b.call (.push now m)).1 = (w.call (.push now m)).1 ∧
      (b.call (.push now m)).2.Agrees (w.call (.push now m)).2 := by
  by_cases hroom : w.held.length < w.capacity
  · have hfull : b.isFull = false := by
      rw [isFull, decide_eq_false_iff_not, h.size, h.capacity]
      exact Nat.not_le.2 hroom
    have hnew : ∀ t ∈ w.held, t.seq ≠ b.nextSeq := by
      intro t ht
      rw [h.nextSeq]
      exact Nat.ne_of_lt (h.below t ht)
    rw [Backlog.call, Backlog.push, hfull, Waitlist.call, if_pos hroom]
    refine ⟨rfl, ?_, ?_, ?_, ?_, h.capacity, congrArg (· + 1) h.nextSeq⟩
    · exact sorted_insertSorted h.sorted fun t ht => hnew t (h.perm.mem_iff.1 ht)
    · rw [← h.nextSeq]
      exact (insertSorted_perm _ _).trans
        ((h.perm.cons _).trans (List.perm_append_singleton _ _).symm)
    · rw [List.map_append, ← h.nextSeq]
      refine List.Nodup.append h.numbered (List.nodup_singleton _)
        (List.disjoint_singleton.2 fun hm => ?_)
      obtain ⟨t, ht, heq⟩ := List.mem_map.1 hm
      exact hnew t ht heq
    · intro t ht
      rcases List.mem_append.1 ht with ht | ht
      · exact Nat.lt_succ_of_lt (h.below t ht)
      · rw [List.mem_singleton.1 ht]
        exact Nat.lt_succ_self _
  · have hfull : b.isFull = true := by
      rw [isFull, decide_eq_true_eq, h.size, h.capacity]
      exact Nat.not_lt.1 hroom
    rw [Backlog.call, Backlog.push, hfull, Waitlist.call, if_neg hroom]
    exact ⟨rfl, h⟩

/-- Taking the first message out leaves the others. -/
theorem Agrees.tail (h : b.Agrees w) (hw : b.waiting = s :: rest) :
    Agrees { b with waiting := rest } { w with held := w.held.filter (·.seq != s.seq) } := by
  have hnumbered := (h.perm.map (·.seq)).nodup_iff.2 h.numbered
  rw [hw, List.map_cons, List.nodup_cons] at hnumbered
  have hrest : (b.waiting.filter (·.seq != s.seq)) = rest := by
    rw [hw, List.filter_cons_of_neg (by simp), List.filter_eq_self]
    intro t ht
    rw [bne_iff_ne]
    exact fun heq => hnumbered.1 (heq ▸ List.mem_map_of_mem ht)
  refine ⟨(hw ▸ h.sorted).of_cons, ?_, ?_, ?_, h.capacity, h.nextSeq⟩
  · change rest.Perm _
    rw [← hrest]
    exact h.perm.filter _
  · exact h.numbered.sublist (List.filter_sublist.map _)
  · exact fun t ht => h.below t (List.mem_of_mem_filter ht)

theorem call_popEligible_of_le (hw : b.waiting = s :: rest) (hdue : s.due ≤ now) :
    b.call (.popEligible now) = (.popped (some s.message), { b with waiting := rest }) := by
  rw [Backlog.call, Backlog.popEligible, hw]
  dsimp only
  rw [if_pos hdue]

theorem call_popEligible_of_lt (h : ∀ s ∈ b.waiting.head?, now < s.due) :
    b.call (.popEligible now) = (.popped none, b) := by
  rw [Backlog.call, Backlog.popEligible]
  cases hw : b.waiting with
  | nil => rfl
  | cons s rest =>
    dsimp only
    rw [if_neg (Nat.not_le.2 (h s (by rw [hw]; rfl)))]

theorem Agrees.popEligible (h : b.Agrees w) (now : Time) :
    (b.call (.popEligible now)).1 = (w.call (.popEligible now)).1 ∧
      (b.call (.popEligible now)).2.Agrees (w.call (.popEligible now)).2 := by
  rw [Waitlist.call, h.first?]
  cases hw : b.waiting with
  | nil =>
    rw [call_popEligible_of_lt (by rw [hw]; nofun)]
    exact ⟨rfl, h⟩
  | cons s rest =>
    rw [List.head?_cons]
    by_cases hdue : s.due ≤ now
    · rw [call_popEligible_of_le hw hdue]
      dsimp only
      rw [if_pos hdue]
      exact ⟨rfl, h.tail hw⟩
    · have hlt : ∀ t ∈ b.waiting.head?, now < t.due := by
        rw [hw, List.head?_cons]
        intro t ht
        exact Option.some.inj ht ▸ Nat.lt_of_not_le hdue
      rw [call_popEligible_of_lt hlt]
      dsimp only
      rw [if_neg hdue]
      exact ⟨rfl, h⟩

theorem Agrees.call (h : b.Agrees w) (c : BacklogCall α) :
    (b.call c).1 = (w.call c).1 ∧ (b.call c).2.Agrees (w.call c).2 := by
  cases c with
  | push now m => exact h.push now m
  | popEligible now => exact h.popEligible now
  | nextRetryAt => exact ⟨congrArg BacklogReply.due h.nextRetryAt?, h⟩
  | size => exact ⟨congrArg BacklogReply.size h.size, h⟩
  | isEmpty =>
    refine ⟨congrArg BacklogReply.flag ?_, h⟩
    exact h.perm.isEmpty_eq
  | isFull =>
    refine ⟨congrArg BacklogReply.flag ?_, h⟩
    rw [isFull, h.size, h.capacity]

/-! ## Popping until nothing is due -/

/-- What pops at one moment give: the messages that are due, one after the other, then nothing. -/
theorem popEligible_replicate {order later : List (Scheduled α)}
    (hw : b.waiting = order ++ later) (horder : ∀ s ∈ order, s.due ≤ now)
    (hlater : ∀ s ∈ later, now < s.due) (n : Nat) :
    (runCalls call b (List.replicate n (.popEligible now))).1 =
        (order.take n).map (fun s => .popped (some s.message)) ++
          List.replicate (n - order.length) (.popped none) ∧
      (runCalls call b (List.replicate n (.popEligible now))).2.waiting =
        order.drop n ++ later := by
  induction n generalizing b order with
  | zero =>
    rw [Nat.zero_sub, List.take_zero]
    exact ⟨rfl, hw⟩
  | succ n ih =>
    rw [List.replicate_succ, runCalls]
    cases order with
    | nil =>
      have hlt : ∀ s ∈ b.waiting.head?, now < s.due := by
        rw [hw]
        exact fun s hs => hlater s (List.mem_of_mem_head? hs)
      rw [call_popEligible_of_lt hlt]
      obtain ⟨hreplies, hwaiting⟩ := ih hw horder
      refine ⟨?_, ?_⟩
      · dsimp only
        rw [hreplies, List.take_nil, List.take_nil, List.length_nil, Nat.sub_zero, Nat.sub_zero,
          List.replicate_succ]
        rfl
      · dsimp only
        rw [hwaiting, List.drop_nil, List.drop_nil]
    | cons s order =>
      obtain ⟨hs, horder⟩ := List.forall_mem_cons.1 horder
      rw [List.cons_append] at hw
      rw [call_popEligible_of_le hw hs]
      obtain ⟨hreplies, hwaiting⟩ := ih (b := { b with waiting := order ++ later }) rfl horder
      refine ⟨?_, hwaiting⟩
      dsimp only
      rw [hreplies, List.length_cons, Nat.add_sub_add_right]
      rfl

/-- **A backlog is the plain list of what waits in it, the least first.** It answers as the
waitlist does, whatever is pushed and popped at whatever moments, and holds the same messages. At
any moment pops give the messages that are due, by their deadlines and at equal ones by their
insertions, and nothing after that; the other messages stay. -/
theorem run_eq_waitlist (capacity : Nat) (calls : List (BacklogCall α)) :
    let b := (runCalls call (empty capacity) calls).2
    let w := (runCalls Waitlist.call (.new capacity) calls).2
    (runCalls call (empty capacity) calls).1 =
        (runCalls Waitlist.call (.new capacity) calls).1 ∧
      b.waiting.Perm w.held ∧
      ∀ now, ∃ order : List (Scheduled α), Sorted order ∧
        order.Perm (w.held.filter (·.due ≤ now)) ∧
        ∀ n, (runCalls call b (List.replicate n (.popEligible now))).1 =
            (order.take n).map (fun s => .popped (some s.message)) ++
              List.replicate (n - order.length) (.popped none) ∧
          (runCalls call b (List.replicate n (.popEligible now))).2.waiting.Perm
            (order.drop n ++ w.held.filter (now < ·.due)) := by
  intro b w
  obtain ⟨hreplies, h⟩ :=
    runCalls_eq (R := Agrees) (fun c h => h.call c) (agrees_empty (α := α) capacity) calls
  refine ⟨hreplies, h.perm, fun now => ?_⟩
  obtain ⟨order, later, hw, horder, hlater⟩ := h.sorted.exists_append now
  have hdue : (order ++ later).filter (·.due ≤ now) = order := by
    have hnone : later.filter (·.due ≤ now) = [] :=
      List.filter_eq_nil_iff.2 fun s hs => by simpa using hlater s hs
    have hall : order.filter (·.due ≤ now) = order :=
      List.filter_eq_self.2 fun s hs => by simpa using horder s hs
    rw [List.filter_append, hall, hnone, List.append_nil]
  have hnot : (order ++ later).filter (now < ·.due) = later := by
    have hnone : order.filter (now < ·.due) = [] :=
      List.filter_eq_nil_iff.2 fun s hs => by simpa using horder s hs
    have hall : later.filter (now < ·.due) = later :=
      List.filter_eq_self.2 fun s hs => by simpa using hlater s hs
    rw [List.filter_append, hall, hnone, List.nil_append]
  have hperm : (order ++ later).Perm w.held := hw ▸ h.perm
  refine ⟨order, ?_, hdue ▸ hperm.filter _, fun n => ?_⟩
  · exact (List.pairwise_append.1 (hw ▸ h.sorted)).1
  · obtain ⟨hreplies, hwaiting⟩ := popEligible_replicate hw horder hlater n
    refine ⟨hreplies, ?_⟩
    have hlaters := hperm.filter (now < Scheduled.due ·)
    rw [hnot] at hlaters
    rw [hwaiting]
    exact hlaters.append_left _

end Backlog

end OrderDesk
