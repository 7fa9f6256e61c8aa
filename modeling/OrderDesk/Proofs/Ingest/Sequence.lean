import OrderDesk.Proofs.Calls
import OrderDesk.Proofs.Ingest.Delivery

/-!
# The order of messages

Messages are read in the order in which they were put in (`Passage.run_fifo`). This is the order of
their offsets as long as no publisher takes an offset while another one publishes
(`Passage.run_increasing`). Otherwise a message may be overtaken between the two steps, even by one
whose publisher comes to the channel later (`Passage.overtaken`).
-/

namespace OrderDesk

/-- A channel with its publishers and the messages that were read from it, in this order. -/
structure Passage where
  inlet : Inlet
  reads : List RawMessage

/-- The messages whose publishers are about to publish. -/
def Inlet.underWay (i : Inlet) : List RawMessage :=
  i.channel.admitted ++ (i.channel.waiting ++ i.claimed)

namespace Passage

inductive Action where
  | publish (step : PublisherStep)
  | read

def new (capacity pollWindow : Nat) : Passage := ⟨.new capacity pollWindow, []⟩

/-- One step of a publisher or a successful read; `none` if nobody can take it. -/
def step (x : Passage) : Action → Option Passage
  | .publish s => (x.inlet.publish s).map fun inlet => { x with inlet }
  | .read => x.inlet.channel.take?.map fun (m, channel) =>
    { inlet := { x.inlet with channel }, reads := x.reads ++ [m] }

/-- A step that is no offset taken while somebody publishes. -/
def isOrderly (x : Passage) : Action → Bool
  | .publish (.claim _) => x.inlet.isIdle
  | _ => true

def orderlyStep (x : Passage) (a : Action) : Option Passage :=
  if x.isOrderly a then x.step a else none

variable {x x' : Passage} {a : Action} {i : Inlet} {s : PublisherStep} {m : RawMessage}

/-! ## Read as put in -/

/-- What was put in was read or is in the queue, in the same order. -/
def Fifo (x : Passage) : Prop := x.inlet.published.reverse = x.reads ++ x.inlet.channel.queue

theorem Fifo.step (h : x.Fifo) (hs : x.step a = some x') : x'.Fifo := by
  unfold Fifo at h ⊢
  cases a with
  | read =>
    obtain ⟨⟨m, c⟩, hc, rfl⟩ := Option.map_eq_some_iff.1 hs
    obtain ⟨rest, admitted, waiting, hqueue, rfl, -⟩ := Channel.take?_eq hc
    simpa [hqueue] using h
  | publish s =>
    obtain ⟨i, hi, rfl⟩ := Option.map_eq_some_iff.1 hs
    unfold Inlet.publish at hi
    split at hi
    · cases hi
      cases s with
      | claim | join | leave => exact h
      | offer m =>
        rcases x.inlet.channel.offer_cases m with ho | ho | ho <;>
          simp only [Inlet.after, ho, List.reverse_cons, h, List.append_assoc]
      | arrive m => simp only [Inlet.after, Channel.arrive, List.reverse_cons, h, List.append_assoc]
      | withdraw m =>
        obtain ⟨admitted, waiting, he, -⟩ := Channel.letIn_eq { x.inlet.channel with
          admitted := x.inlet.channel.admitted.erase m
          waiting := x.inlet.channel.waiting.erase m }
        simpa only [Inlet.after, Channel.withdraw, he] using h
    · cases hi

/-- Messages are read in the order in which they were put in, whatever the steps. -/
theorem run_fifo (capacity pollWindow : Nat) (actions : List Action) :
    (runSteps step (new capacity pollWindow) actions).reads <+:
      (runSteps step (new capacity pollWindow) actions).inlet.published.reverse := by
  have h : (runSteps step (new capacity pollWindow) actions).Fifo :=
    runSteps_keeps (P := Fifo) (fun h hs => h.step hs) (show Fifo (new _ _) from rfl) actions
  rw [Fifo] at h
  exact h ▸ List.prefix_append _ _

/-! ## One publisher at a time -/

/-- What was read, what is to be read, and what is about to be put in. -/
def line (x : Passage) : List RawMessage :=
  x.reads ++ (x.inlet.channel.queue ++ x.inlet.underWay)

/-- The offsets increase along the line, and one publisher at most is about to publish. -/
structure InLine (x : Passage) : Prop where
  increasing : (x.line.map (·.offset)).Pairwise (· < ·)
  claimed : ∀ m ∈ x.line, m.offset < x.inlet.channel.nextOffset
  single : x.inlet.underWay.length ≤ 1

theorem InLine.new (capacity pollWindow : Nat) : (new capacity pollWindow).InLine where
  increasing := .nil
  claimed _ h := nomatch h
  single := Nat.zero_le 1

/-- Messages that move on in the line or leave it stay in order. -/
theorem InLine.moves (h : x.InLine) (hline : x'.line.Sublist x.line)
    (hnext : x'.inlet.channel.nextOffset = x.inlet.channel.nextOffset)
    (hsingle : x'.inlet.underWay.length ≤ 1) : x'.InLine where
  increasing := h.increasing.sublist (hline.map _)
  claimed m hm := hnext ▸ h.claimed m (hline.subset hm)
  single := hsingle

theorem InLine.claim (h : x.InLine) (hidle : x.inlet.isIdle) (payload : Bytes) :
    InLine { x with inlet := x.inlet.after (.claim payload) } := by
  obtain ⟨hclaimed, hadmitted, hwaiting⟩ := Inlet.isIdle_iff.1 hidle
  have hline : line { x with inlet := x.inlet.after (.claim payload) } =
      x.line ++ [⟨x.inlet.channel.nextOffset, payload⟩] := by
    simp [line, Inlet.underWay, Inlet.after, Channel.claim, hclaimed, hadmitted, hwaiting]
  refine ⟨?_, fun m hm => ?_, ?_⟩
  · rw [hline, List.map_append, List.pairwise_append]
    refine ⟨h.increasing, List.pairwise_singleton _ _, fun n hn k hk => ?_⟩
    obtain ⟨m, hm, rfl⟩ := List.mem_map.1 hn
    obtain rfl := List.mem_singleton.1 hk
    exact h.claimed m hm
  · rw [hline, List.mem_append, List.mem_singleton] at hm
    rcases hm with hm | rfl
    · exact Nat.lt_succ_of_lt (h.claimed m hm)
    · exact Nat.lt_succ_self _
  · simp [Inlet.underWay, Inlet.after, Channel.claim, hclaimed, hadmitted, hwaiting]

theorem eq_singleton_of_mem {l : List RawMessage} (hm : m ∈ l) (hl : l.length ≤ 1) : l = [m] := by
  obtain ⟨n, rfl⟩ := List.length_eq_one_iff.1 (Nat.le_antisymm hl (List.length_pos_of_mem hm))
  rw [List.mem_singleton.1 hm]

/-- Who has an offset and has not come to the channel is the only one about to publish. -/
theorem eq_of_mem_claimed (h : i.underWay.length ≤ 1) (hm : m ∈ i.claimed) :
    i.channel.admitted = [] ∧ i.channel.waiting = [] ∧ i.claimed = [m] := by
  simp only [Inlet.underWay, List.length_append] at h
  have hpos := List.length_pos_of_mem hm
  exact ⟨List.eq_nil_of_length_eq_zero (by omega), List.eq_nil_of_length_eq_zero (by omega),
    eq_singleton_of_mem hm (by omega)⟩

theorem eq_of_mem_admitted (h : i.underWay.length ≤ 1) (hm : m ∈ i.channel.admitted) :
    i.channel.admitted = [m] ∧ i.channel.waiting = [] ∧ i.claimed = [] := by
  simp only [Inlet.underWay, List.length_append] at h
  have hpos := List.length_pos_of_mem hm
  exact ⟨eq_singleton_of_mem hm (by omega), List.eq_nil_of_length_eq_zero (by omega),
    List.eq_nil_of_length_eq_zero (by omega)⟩

/-- Who is let in goes from the front of those who wait to the end of those who are let in. -/
theorem underWay_letIn (c : Channel) (claimed published : List RawMessage) :
    Inlet.underWay ⟨c.letIn, claimed, published⟩ = Inlet.underWay ⟨c, claimed, published⟩ := by
  unfold Channel.letIn
  split
  · rfl
  · next m rest hw =>
    split
    · simp [Inlet.underWay, hw]
    · rfl

theorem queue_letIn (c : Channel) : c.letIn.queue = c.queue := by
  obtain ⟨_, _, he, -⟩ := c.letIn_eq
  rw [he]

theorem nextOffset_letIn (c : Channel) : c.letIn.nextOffset = c.nextOffset := by
  obtain ⟨_, _, he, -⟩ := c.letIn_eq
  rw [he]

theorem InLine.read (h : x.InLine) (hs : x.step .read = some x') : x'.InLine := by
  obtain ⟨⟨m, c⟩, hc, rfl⟩ := Option.map_eq_some_iff.1 hs
  unfold Channel.take? at hc
  split at hc
  · cases hc
  · next n rest hqueue =>
    cases hc
    refine h.moves ?_ (nextOffset_letIn _) ?_
    · simp only [line, underWay_letIn, queue_letIn, hqueue, List.append_assoc]
      exact .refl _
    · rw [underWay_letIn]
      exact h.single

theorem InLine.offer (h : x.InLine) (hm : m ∈ x.inlet.claimed) :
    InLine { x with inlet := x.inlet.after (.offer m) } := by
  obtain ⟨hadmitted, hwaiting, hclaimed⟩ := eq_of_mem_claimed h.single hm
  rcases x.inlet.channel.offer_cases m with ho | ho | ho
  all_goals
    refine h.moves ?_ ?_ ?_ <;>
      simp [line, Inlet.underWay, Inlet.after, ho, hadmitted, hwaiting, hclaimed]

theorem InLine.arrive (h : x.InLine) (hm : m ∈ x.inlet.channel.admitted) :
    InLine { x with inlet := x.inlet.after (.arrive m) } := by
  obtain ⟨hadmitted, hwaiting, hclaimed⟩ := eq_of_mem_admitted h.single hm
  refine h.moves ?_ rfl ?_ <;>
    simp [line, Inlet.underWay, Inlet.after, Channel.arrive, hadmitted, hwaiting, hclaimed]

theorem InLine.withdraw (h : x.InLine) (m : RawMessage) :
    InLine { x with inlet := x.inlet.after (.withdraw m) } := by
  have hunder : (x.inlet.after (.withdraw m)).underWay.Sublist x.inlet.underWay := by
    simp only [Inlet.after, Channel.withdraw, underWay_letIn]
    exact List.erase_sublist.append (List.erase_sublist.append (.refl _))
  refine h.moves ?_ (nextOffset_letIn _) (Nat.le_trans hunder.length_le h.single)
  simp only [line, Inlet.after, Channel.withdraw, queue_letIn]
  exact (List.Sublist.refl _).append ((List.Sublist.refl _).append hunder)

theorem InLine.step (h : x.InLine) (hs : x.orderlyStep a = some x') : x'.InLine := by
  unfold orderlyStep at hs
  split at hs
  · next horderly =>
    cases a with
    | read => exact h.read hs
    | publish s =>
      obtain ⟨i, hi, rfl⟩ := Option.map_eq_some_iff.1 hs
      unfold Inlet.publish at hi
      split at hi
      · next hallows =>
        cases hi
        cases s with
        | claim payload => exact h.claim horderly payload
        | offer m => exact h.offer hallows
        | arrive m => exact h.arrive hallows
        | withdraw m => exact h.withdraw m
        | join | leave => exact h.moves (.refl _) rfl h.single
      · cases hi
  · cases hs

/-- Where no publisher takes an offset while another one publishes, the offsets that are read
increase. -/
theorem run_increasing (capacity pollWindow : Nat) (actions : List Action) :
    ((runSteps orderlyStep (new capacity pollWindow) actions).reads.map (·.offset)).Pairwise
      (· < ·) := by
  have h : (runSteps orderlyStep (new capacity pollWindow) actions).InLine :=
    runSteps_keeps (fun h hs => h.step hs) (.new capacity pollWindow) actions
  exact h.increasing.sublist ((List.sublist_append_left _ _).map _)

/-- The third publisher comes to a full channel and waits. Two reads make room for it and for one
more message, and before it has put its message in, a fourth publisher comes and finds that room. -/
theorem overtaken :
    ((runSteps step (new 2 10) [.publish (.claim [1]), .publish (.offer ⟨0, [1]⟩),
      .publish (.claim [2]), .publish (.offer ⟨1, [2]⟩), .publish (.claim [3]),
      .publish (.offer ⟨2, [3]⟩), .read, .read, .publish (.claim [4]), .publish (.offer ⟨3, [4]⟩),
      .publish (.arrive ⟨2, [3]⟩), .read, .read]).reads.map (·.offset)) = [0, 1, 3, 2] := by decide

end Passage

end OrderDesk
