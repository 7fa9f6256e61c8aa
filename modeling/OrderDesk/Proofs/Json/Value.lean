import OrderDesk.Proofs.Json.Number
import OrderDesk.Proofs.Json.Text

/-!
# Values that are passed over

Well-formed JSON values of any kind and depth, as they may be written (`WellFormed`), and the loop
that passes over them: from the first byte of a value to the last one it comes out with the
containers that were open before (`WellFormed.passed`), so a value is passed over as a whole
(`WellFormed.skipValue`).
-/

namespace OrderDesk.Json

def Frame.opening : Frame → UInt8
  | .list => 0x5B
  | .object => 0x7B

/-! ## Well-formed values -/

/-- What stands between an opening bracket or a comma and a value: white space, or a key. -/
inductive Lead : Frame → Bytes → Prop
  | list {a : Bytes} (ha : Blank a) : Lead .list a
  | object {a k b c : Bytes} {name : List Char} (ha : Blank a) (hk : Text.Quoted k name)
      (hb : Blank b) (hc : Blank c) : Lead .object (a ++ (k ++ (b ++ 0x3A :: c)))

/-- A part of a text: a value, or the rest of a container from behind one of its values on. -/
inductive Part where
  | value
  | rest (f : Frame)

/-- `null`, `true` and `false`. -/
def words : List Bytes :=
  [[0x6E, 0x75, 0x6C, 0x6C], [0x74, 0x72, 0x75, 0x65], [0x66, 0x61, 0x6C, 0x73, 0x65]]

inductive WellFormed : Part → Bytes → Prop
  | word {s : Bytes} (hs : s ∈ words) : WellFormed .value s
  | number {s : Bytes} (hs : Number.Numeral s) : WellFormed .value s
  | text {s : Bytes} {cs : List Char} (hs : Text.Quoted s cs) : WellFormed .value s
  | empty {a : Bytes} (f : Frame) (ha : Blank a) :
      WellFormed .value (f.opening :: (a ++ [f.closing]))
  | container {l v r : Bytes} (f : Frame) (hl : Lead f l) (hv : WellFormed .value v)
      (hr : WellFormed (.rest f) r) : WellFormed .value (f.opening :: (l ++ (v ++ r)))
  | close {a : Bytes} (f : Frame) (ha : Blank a) : WellFormed (.rest f) (a ++ [f.closing])
  | more {a l v r : Bytes} (f : Frame) (ha : Blank a) (hl : Lead f l) (hv : WellFormed .value v)
      (hr : WellFormed (.rest f) r) : WellFormed (.rest f) (a ++ 0x2C :: (l ++ (v ++ r)))

variable {f : Frame} {p : Part} {a l s t : Bytes} {b : UInt8} {outer : List Frame} {fuel : Nat}

/-- A value begins with no white space, and not with a closing bracket. -/
theorem WellFormed.head (hs : WellFormed .value s) :
    ∃ b r, s = b :: r ∧ isSpace b = false ∧ b ≠ f.closing := by
  cases hs with
  | word hs =>
    simp only [words, List.mem_cons, List.not_mem_nil, or_false] at hs
    rcases hs with rfl | rfl | rfl <;> exact ⟨_, _, rfl, by decide, by cases f <;> decide⟩
  | number hs =>
    obtain ⟨b, r, rfl, hb⟩ := hs.head
    refine ⟨b, r, rfl, isSpace_of_sign_or_digit hb, ?_⟩
    rintro rfl
    revert hb
    cases f <;> decide
  | text hs =>
    obtain ⟨r, rfl, -⟩ := hs.behind
    exact ⟨_, _, rfl, by decide, by cases f <;> decide⟩
  | empty g ha => exact ⟨_, _, rfl, by cases g <;> decide, by cases f <;> cases g <;> decide⟩
  | container g hl hv hr =>
    exact ⟨_, _, rfl, by cases g <;> decide, by cases f <;> cases g <;> decide⟩

theorem isSpace_closing (f : Frame) : isSpace f.closing = false := by cases f <;> rfl

theorem closes_closing (f : Frame) (s : Bytes) : Closes (f.closing :: s) := by
  cases f with
  | list => exact closes_bracket s
  | object => exact closes_brace s

theorem WellFormed.closes (hs : WellFormed (.rest f) s) (t : Bytes) : Closes (s ++ t) := by
  cases hs with
  | close f ha =>
    rw [List.append_assoc]
    exact ha.closes (closes_closing f t)
  | more f ha hl hv hr =>
    rw [List.append_assoc]
    exact ha.closes (closes_comma _)

/-! ## Before a value -/

theorem colon_append (ha : Blank a) (s : Bytes) : colon (a ++ 0x3A :: s) = .ok s := by
  rw [colon, skipBlank_append ha (by decide)]
  rfl

/-- At a comma, and at the first token of a container, the reader goes to the next value. -/
theorem Lead.next (hl : Lead f l) (s : Bytes) : ∃ c, Blank c ∧ f.next (l ++ s) = .ok (c ++ s) := by
  cases hl with
  | list ha => exact ⟨_, ha, rfl⟩
  | @object a k b c name ha hk hb hc =>
    obtain ⟨r, rfl, hbehind⟩ := hk.behind
    refine ⟨c, hc, ?_⟩
    simp only [Frame.next, skipKey, List.append_assoc, List.cons_append]
    rw [skipBlank_append ha (by decide)]
    simp only [(hbehind _).2, if_true]
    exact colon_append hb _

theorem Lead.first (hl : Lead f l) (hs : WellFormed .value s) (t : Bytes) :
    ∃ b r c, skipBlank (l ++ (s ++ t)) = b :: r ∧ b ≠ f.closing ∧ Blank c ∧
      f.next (b :: r) = .ok (c ++ (s ++ t)) := by
  cases hl with
  | list ha =>
    obtain ⟨b, r, rfl, hspace, hclosing⟩ := hs.head
    exact ⟨b, _, [], skipBlank_append ha hspace _, hclosing, blank_nil, rfl⟩
  | object ha hk hb hc =>
    obtain ⟨d, hd, hnext⟩ := (Lead.object blank_nil hk hb hc).next (s ++ t)
    obtain ⟨r, rfl, -⟩ := hk.behind
    simp only [List.nil_append, List.append_assoc, List.cons_append] at hnext ⊢
    exact ⟨_, _, d, skipBlank_append ha (by decide) _, by decide, hd, hnext⟩

/-! ## Rounds -/

/-- What the loop goes on with after a round. -/
def resume (fuel : Nat) : Except Fault (List Frame × Bytes) → Except Fault Bytes
  | .error f => .error f
  | .ok ([], s) => .ok s
  | .ok (f :: outer, s) => skipLoop fuel (f :: outer) s

theorem skipLoop_succ (fuel : Nat) (outer : List Frame) (s : Bytes) :
    skipLoop (fuel + 1) outer s = resume fuel (skipStep outer s) := by
  rw [skipLoop]
  rcases skipStep outer s with f | ⟨_ | ⟨f, outer⟩, s⟩ <;> rfl

theorem skipStep_word (hs : s ∈ words) (ha : Blank a) (t : Bytes) :
    skipStep outer (a ++ (s ++ t)) = afterValue outer t := by
  simp only [words, List.mem_cons, List.not_mem_nil, or_false] at hs
  rcases hs with rfl | rfl | rfl <;> simp only [List.cons_append, List.nil_append] <;>
    rw [skipStep, skipBlank_append ha (by decide)] <;> rfl

theorem skipStep_number (hs : Number.Numeral s) (ha : Blank a) (ht : Closes t) :
    skipStep outer (a ++ (s ++ t)) = afterValue outer t := by
  have hskip := hs.skip ht
  obtain ⟨b, r, rfl, hb⟩ := hs.head
  have hwords : b ≠ 0x6E ∧ b ≠ 0x74 ∧ b ≠ 0x66 := by
    refine ⟨?_, ?_, ?_⟩ <;> rintro rfl <;> revert hb <;> decide
  rw [List.cons_append] at hskip ⊢
  rw [skipStep, skipBlank_append ha (isSpace_of_sign_or_digit hb)]
  simp only [if_neg hwords.1, if_neg hwords.2.1, if_neg hwords.2.2]
  rw [if_pos (by simpa using hb), hskip]
  rfl

theorem skipStep_text {cs : List Char} (hs : Text.Quoted s cs) (ha : Blank a) (t : Bytes) :
    skipStep outer (a ++ (s ++ t)) = afterValue outer t := by
  obtain ⟨r, rfl, hbehind⟩ := hs.behind
  rw [List.cons_append, skipStep, skipBlank_append ha (by decide)]
  change (Text.skip (r ++ t)).bind (afterValue outer) = _
  rw [(hbehind t).2]
  rfl

theorem skipStep_opening (f : Frame) (ha : Blank a) (s : Bytes) :
    skipStep outer (a ++ f.opening :: s) = afterOpening f outer s := by
  rw [skipStep, skipBlank_append ha (by cases f <;> rfl)]
  cases f <;> rfl

theorem afterValue_closing (f : Frame) (ha : Blank a) (t : Bytes) :
    afterValue (f :: outer) (a ++ f.closing :: t) = afterValue outer t := by
  rw [afterValue, skipBlank_append ha (isSpace_closing f)]
  cases f <;> rfl

theorem afterValue_comma (f : Frame) (ha : Blank a) (s : Bytes) :
    afterValue (f :: outer) (a ++ 0x2C :: s) = (f.next s).map (f :: outer, ·) := by
  rw [afterValue, skipBlank_append ha (by decide)]
  rfl

theorem afterOpening_closing (f : Frame) (ha : Blank a) (t : Bytes) :
    afterOpening f outer (a ++ f.closing :: t) = afterValue outer t := by
  rw [afterOpening, skipBlank_append ha (isSpace_closing f)]
  exact if_pos rfl

theorem afterOpening_lead (outer : List Frame) (hl : Lead f l) (hs : WellFormed .value s)
    (t : Bytes) : ∃ c, Blank c ∧
      afterOpening f outer (l ++ (s ++ t)) = .ok (f :: outer, c ++ (s ++ t)) := by
  obtain ⟨b, r, c, hfirst, hclosing, hc, hnext⟩ := hl.first hs t
  refine ⟨c, hc, ?_⟩
  rw [afterOpening, hfirst]
  simp only [if_neg hclosing, hnext]
  rfl

/-- What passing over a part comes to, `n` rounds later: after a value whatever was open stays open,
and the rest of a container closes it. -/
def Passed (n : Nat) : Part → Bytes → Prop
  | .value, s => ∀ {a t outer} (fuel : Nat), Blank a → Closes t →
      skipLoop (fuel + n) outer (a ++ (s ++ t)) = resume fuel (afterValue outer t)
  | .rest f, s => ∀ {t outer} (fuel : Nat), Closes t →
      resume (fuel + n) (afterValue (f :: outer) (s ++ t)) = resume fuel (afterValue outer t)

theorem passed_of_skipStep (h : ∀ {a t outer}, Blank a → Closes t →
    skipStep outer (a ++ (s ++ t)) = afterValue outer t) : Passed 1 .value s := by
  intro a t outer fuel ha ht
  rw [skipLoop_succ, h ha ht]

theorem Passed.container {v r : Bytes} {m n : Nat} (hl : Lead f l) (hv : WellFormed .value v)
    (hr : WellFormed (.rest f) r) (hm : Passed m .value v) (hn : Passed n (.rest f) r) :
    Passed (n + m + 1) .value (f.opening :: (l ++ (v ++ r))) := by
  intro a t outer fuel ha ht
  obtain ⟨c, hc, hopening⟩ := afterOpening_lead outer hl hv (r ++ t)
  simp only [← Nat.add_assoc]
  calc skipLoop (fuel + n + m + 1) outer (a ++ (f.opening :: (l ++ (v ++ r)) ++ t))
      = resume (fuel + n + m) (afterOpening f outer (l ++ (v ++ (r ++ t)))) := by
        rw [skipLoop_succ, List.cons_append, skipStep_opening f ha]
        simp only [List.append_assoc]
    _ = skipLoop (fuel + n + m) (f :: outer) (c ++ (v ++ (r ++ t))) := by
        rw [hopening]
        rfl
    _ = resume (fuel + n) (afterValue (f :: outer) (r ++ t)) := hm (fuel + n) hc (hr.closes t)
    _ = resume fuel (afterValue outer t) := hn fuel ht

theorem Passed.more {v r : Bytes} {m n : Nat} (ha : Blank a) (hl : Lead f l)
    (hr : WellFormed (.rest f) r) (hm : Passed m .value v) (hn : Passed n (.rest f) r) :
    Passed (n + m) (.rest f) (a ++ 0x2C :: (l ++ (v ++ r))) := by
  intro t outer fuel ht
  obtain ⟨c, hc, hnext⟩ := hl.next (v ++ (r ++ t))
  simp only [← Nat.add_assoc]
  calc resume (fuel + n + m) (afterValue (f :: outer) (a ++ 0x2C :: (l ++ (v ++ r)) ++ t))
      = resume (fuel + n + m) ((f.next (l ++ (v ++ (r ++ t)))).map (f :: outer, ·)) := by
        rw [List.append_assoc, List.cons_append, afterValue_comma f ha]
        simp only [List.append_assoc]
    _ = skipLoop (fuel + n + m) (f :: outer) (c ++ (v ++ (r ++ t))) := by
        rw [hnext]
        rfl
    _ = resume (fuel + n) (afterValue (f :: outer) (r ++ t)) := hm (fuel + n) hc (hr.closes t)
    _ = resume fuel (afterValue outer t) := hn fuel ht

/-- A part is passed over in no more rounds than it has bytes. -/
theorem WellFormed.passed (hs : WellFormed p s) : ∃ n ≤ s.length, Passed n p s := by
  induction hs with
  | @word s hs =>
    refine ⟨1, ?_, passed_of_skipStep fun ha _ => skipStep_word hs ha _⟩
    revert s
    decide
  | number hs =>
    refine ⟨1, ?_, passed_of_skipStep fun ha ht => skipStep_number hs ha ht⟩
    obtain ⟨b, r, rfl, -⟩ := hs.head
    simp
  | text hs =>
    refine ⟨1, ?_, passed_of_skipStep fun ha _ => skipStep_text hs ha _⟩
    obtain ⟨r, rfl, -⟩ := hs.behind
    simp
  | empty f ha =>
    refine ⟨1, by simp, passed_of_skipStep fun hblank _ => ?_⟩
    rw [List.cons_append, skipStep_opening f hblank, List.append_assoc, List.singleton_append,
      afterOpening_closing f ha]
  | @container l v r f hl hv hr ihv ihr =>
    obtain ⟨m, hm, hpassed⟩ := ihv
    obtain ⟨n, hn, hclosed⟩ := ihr
    exact ⟨n + m + 1, by simp; omega, Passed.container hl hv hr hpassed hclosed⟩
  | close f ha =>
    refine ⟨0, Nat.zero_le _, ?_⟩
    intro t outer fuel ht
    rw [List.append_assoc, List.singleton_append, afterValue_closing f ha]
    rfl
  | @more a l v r f ha hl hv hr ihv ihr =>
    obtain ⟨m, hm, hpassed⟩ := ihv
    obtain ⟨n, hn, hclosed⟩ := ihr
    exact ⟨n + m, by simp; omega, Passed.more ha hl hr hpassed hclosed⟩

/-- A value is passed over as a whole, however deep it nests. -/
theorem WellFormed.skipValue (hs : WellFormed .value s) (ha : Blank a) (ht : Closes t) :
    skipValue (a ++ (s ++ t)) = .ok t := by
  obtain ⟨n, hn, hpassed⟩ := hs.passed
  have hfuel : (a ++ (s ++ t)).length + 1 = (a ++ (s ++ t)).length + 1 - n + n := by
    simp only [List.length_append]
    omega
  rw [Json.skipValue, hfuel, hpassed _ ha ht]
  rfl

end OrderDesk.Json
