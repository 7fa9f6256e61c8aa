import Mathlib.Data.List.Forall2
import Mathlib.Data.List.Nodup
import OrderDesk.Json.Record
import OrderDesk.Proofs.Members
import OrderDesk.Proofs.Json.Value

/-!
# Records and lists read back

The text of a record with given members may have them in any order, white space anywhere between two
tokens, other members of any well-formed value among them, and may leave out members that are known
to be empty (`Record`). It is read as the record (`Record.reads`); the compact form is one such text
(`record_writeObject`). The text of a list has its elements in order (`Sequence`, `Sequence.reads`,
`sequence_writeList`).
-/

namespace OrderDesk.Json

variable {μ α : Type}

/-! ## Texts of records and lists -/

/-- What comes before a member or an element: white space, and a comma if it is not the first. -/
inductive Before : Bool → Bytes → Prop
  | first {a : Bytes} (ha : Blank a) : Before true a
  | comma {a b : Bytes} (ha : Blank a) (hb : Blank b) : Before false (a ++ 0x2C :: b)

/-- A key with its colon. -/
inductive Label (name : String) : Bytes → Prop
  | mk {k b : Bytes} (hk : Text.Quoted k name.toList) (hb : Blank b) :
      Label name (k ++ (b ++ [0x3A]))

section
variable (W : μ → Bytes → Prop) (names : List String) (V : α → Bytes → Prop)

/-- The members of an object up to its closing brace: those of the list, written as `W` says, in
this order, and between them members with other names than the known ones. -/
inductive Members : Bool → List (String × μ) → Bytes → Prop
  | close {first : Bool} {a : Bytes} (ha : Blank a) : Members first [] (a ++ [0x7D])
  | known {first : Bool} {a l c v r : Bytes} {name : String} {m : μ} {ms : List (String × μ)}
      (ha : Before first a) (hl : Label name l) (hc : Blank c) (hv : W m v)
      (hr : Members false ms r) : Members first ((name, m) :: ms) (a ++ (l ++ (c ++ (v ++ r))))
  | unknown {first : Bool} {a l c v r : Bytes} {name : String} {ms : List (String × μ)}
      (ha : Before first a) (hl : Label name l) (hname : name ∉ names) (hc : Blank c)
      (hv : WellFormed .value v) (hr : Members false ms r) :
      Members first ms (a ++ (l ++ (c ++ (v ++ r))))

/-- The elements of an array up to its closing bracket. -/
inductive Elements : Bool → List α → Bytes → Prop
  | close {first : Bool} {a : Bytes} (ha : Blank a) : Elements first [] (a ++ [0x5D])
  | more {first : Bool} {a v r : Bytes} {x : α} {xs : List α} (ha : Before first a) (hv : V x v)
      (hr : Elements false xs r) : Elements first (x :: xs) (a ++ (v ++ r))

/-- The text of a record: its members stand in any order, and those that are `empty` may be left
out. -/
inductive Record (empty ms : List (String × μ)) : Bytes → Prop
  | mk {present absent : List (String × μ)} {s : Bytes} (hms : (present ++ absent).Perm ms)
      (habsent : ∀ x ∈ absent, x ∈ empty) (hs : Members W (ms.map Prod.fst) true present s) :
      Record empty ms (0x7B :: s)

inductive Sequence (xs : List α) : Bytes → Prop
  | mk {s : Bytes} (hs : Elements V true xs s) : Sequence xs (0x5B :: s)

end

variable {W : μ → Bytes → Prop} {names : List String} {V : α → Bytes → Prop} {first : Bool}
  {name : String} {ms found : List (String × μ)} {fields : List (Field μ)} {a l s t : Bytes}
  {fuel : Nat}

/-! ## Reading strings -/

theorem Text.Quoted.reads {cs : List Char} (hs : Text.Quoted s cs) (expected : String) :
    Reads (readTextAs expected) s (.ofList cs) := by
  intro a t ha ht
  obtain ⟨r, rfl, hbehind⟩ := hs.behind
  rw [List.cons_append, readTextAs, skipBlank_append ha (by decide)]
  exact (hbehind t).1

/-! ## Reading members -/

/-- In front of a key that is due comes what the reader of the last member has left. -/
theorem nextKey_label (ha : Before first a) (hl : Label name l) (s : Bytes) :
    ∃ b, Blank b ∧ nextKey first (a ++ (l ++ s)) = .ok (some name, b ++ 0x3A :: s) := by
  obtain @⟨k, b, hk, hb⟩ := hl
  obtain ⟨r, rfl, hbehind⟩ := hk.behind
  refine ⟨b, hb, ?_⟩
  cases ha with
  | first ha =>
    simp only [List.append_assoc, List.cons_append, List.nil_append, nextKey]
    rw [skipBlank_append ha (by decide)]
    simp [(hbehind _).1, Except.map]
  | comma ha hb =>
    simp only [List.append_assoc, List.cons_append, List.nil_append, nextKey]
    rw [skipBlank_append ha (by decide)]
    simp only [skipBlank_append hb (show isSpace 0x22 = false by decide)]
    simp [(hbehind _).1, Except.map]

theorem nextKey_closing (ha : Blank a) (first : Bool) (t : Bytes) :
    nextKey (first) (a ++ 0x7D :: t) = .ok (none, t) := by
  simp only [nextKey]
  rw [skipBlank_append ha (by decide)]
  rfl

theorem Before.closes (ha : Before false a) (t : Bytes) : Closes (a ++ t) := by
  cases ha with
  | comma ha hb =>
    rw [List.append_assoc]
    exact ha.closes (closes_comma _)

theorem Members.closes (hs : Members W names false ms s) (t : Bytes) : Closes (s ++ t) := by
  cases hs with
  | close ha =>
    rw [List.append_assoc]
    exact ha.closes (closes_brace _)
  | known ha =>
    rw [List.append_assoc]
    exact ha.closes _
  | unknown ha =>
    rw [List.append_assoc]
    exact ha.closes _

theorem Label.length_pos (hl : Label name l) : 0 < l.length := by
  obtain @⟨k, b, hk, hb⟩ := hl
  simp only [List.length_append, List.length_singleton]
  omega

/-- The members of the list are found, in the order of the text, and the other ones are passed
over. -/
theorem Members.read (hs : Members W names first ms s)
    (hnames : ∀ field ∈ fields, field.name ∈ names)
    (hread : ∀ x ∈ ms, ∃ field, fields.find? (·.name == x.1) = some field ∧
      ∀ v, W x.2 v → Reads field.read v x.2)
    (hnodup : (ms.map Prod.fst).Nodup) (hfound : ∀ x ∈ ms, found.lookup x.1 = none)
    (hfuel : s.length ≤ fuel) (t : Bytes) :
    members fields fuel first found (s ++ t) = .ok (ms.reverse ++ found, t) := by
  induction hs generalizing fuel found with
  | @close first a ha =>
    cases fuel with
    | zero => simp at hfuel
    | succ fuel =>
      rw [List.append_assoc, List.singleton_append, members, nextKey_closing ha]
      rfl
  | @known first a l c v r name m ms ha hl hc hv hr ih =>
    have hpos := hl.length_pos
    simp only [List.length_append] at hfuel
    obtain ⟨fuel, rfl⟩ : ∃ k, fuel = k + 1 := ⟨fuel - 1, by omega⟩
    simp only [List.map_cons, List.nodup_cons, List.forall_mem_cons] at hread hnodup hfound
    obtain ⟨⟨field, hfield, hreads⟩, hread⟩ := hread
    obtain ⟨b, hb, hnext⟩ := nextKey_label ha hl (c ++ (v ++ (r ++ t)))
    have hnew : ∀ x ∈ ms, ((name, m) :: found).lookup x.1 = none := by
      intro x hx
      have hne : x.1 ≠ name := by
        rintro rfl
        exact hnodup.1 (List.mem_map_of_mem hx)
      rw [List.lookup_cons, beq_eq_false_iff_ne.2 hne]
      exact hfound.2 x hx
    simp only [List.append_assoc, members, hnext, hfield, hfound.1, Option.isSome_none,
      Bool.false_eq_true, if_false, colon_append hb]
    simp only [Except.bind, hreads v hv hc (hr.closes t)]
    rw [ih hread hnodup.2 hnew (by omega)]
    simp
  | @unknown first a l c v r name ms ha hl hname hc hv hr ih =>
    have hpos := hl.length_pos
    simp only [List.length_append] at hfuel
    obtain ⟨fuel, rfl⟩ : ∃ k, fuel = k + 1 := ⟨fuel - 1, by omega⟩
    obtain ⟨b, hb, hnext⟩ := nextKey_label ha hl (c ++ (v ++ (r ++ t)))
    have hfield : fields.find? (·.name == name) = none := by
      rw [List.find?_eq_none]
      intro field hfield hn
      rw [beq_iff_eq] at hn
      exact hname (hn ▸ hnames field hfield)
    simp only [List.append_assoc, members, hnext, hfield, colon_append hb]
    simp only [Except.bind, hv.skipValue hc (hr.closes t)]
    exact ih hread hnodup hfound (by omega)

/-! ## Reading records -/

/-- A field of a record fits a member: it bears its name, reads its value however that is written,
and stands for it when it is missing and empty. -/
structure Field.Fits (W : μ → Bytes → Prop) (empty : List (String × μ)) (field : Field μ)
    (x : String × μ) : Prop where
  name : field.name = x.1
  read : ∀ v, W x.2 v → Reads field.read v x.2
  absent : x ∈ empty → field.absent = some x.2

variable {empty : List (String × μ)}

theorem find?_of_fits {x : String × μ}
    (hfits : List.Forall₂ (Field.Fits W empty) fields ms) (hnodup : (ms.map Prod.fst).Nodup)
    (hx : x ∈ ms) : ∃ field, fields.find? (·.name == x.1) = some field ∧ field.Fits W empty x := by
  induction hfits with
  | nil => cases hx
  | @cons field y fields ms hfit hfits ih =>
    rw [List.map_cons, List.nodup_cons] at hnodup
    rcases List.mem_cons.1 hx with rfl | hx
    · refine ⟨field, ?_, hfit⟩
      rw [List.find?_cons_of_pos]
      simp [hfit.name]
    · have hne : field.name ≠ x.1 := by
        intro he
        rw [hfit.name] at he
        exact hnodup.1 (he ▸ List.mem_map_of_mem hx)
      rw [List.find?_cons_of_neg]
      · exact ih hnodup.2 hx
      · simpa using hne

theorem names_of_fits (hfits : List.Forall₂ (Field.Fits W empty) fields ms) :
    ∀ field ∈ fields, field.name ∈ ms.map Prod.fst := by
  induction hfits with
  | nil => simp
  | cons hfit _ ih =>
    simp only [List.forall_mem_cons, List.map_cons]
    exact ⟨by simp [hfit.name], fun field hfield => List.mem_cons_of_mem _ (ih field hfield)⟩

theorem collect_of_fits (hfits : List.Forall₂ (Field.Fits W empty) fields ms)
    (hvalue : ∀ x ∈ ms, (found.lookup x.1).isSome → found.lookup x.1 = some x.2)
    (hempty : ∀ x ∈ ms, found.lookup x.1 = none → x ∈ empty) :
    collect found fields = .ok (ms.map Prod.snd) := by
  induction hfits with
  | nil => rfl
  | @cons field x fields ms hfit _ ih =>
    rw [List.forall_mem_cons] at hvalue hempty
    have hx : (found.lookup field.name).or field.absent = some x.2 := by
      rw [hfit.name]
      cases h : found.lookup x.1 with
      | none =>
        rw [Option.none_or]
        exact hfit.absent (hempty.1 h)
      | some y =>
        rw [Option.some_or, ← h]
        exact hvalue.1 (by simp [h])
    simp only [collect, hx, ih hvalue.2 hempty.2]
    rfl

/-- What was found of a record is what its text has, and the rest of its members is absent. -/
theorem lookup_present {present absent : List (String × μ)} (hms : (present ++ absent).Perm ms)
    (hnodup : ((present ++ absent).map Prod.fst).Nodup) {x : String × μ} (hx : x ∈ ms) :
    present.reverse.lookup x.1 = some x.2 ∨ x ∈ absent ∧ present.reverse.lookup x.1 = none := by
  rw [List.map_append, List.nodup_append] at hnodup
  obtain ⟨hpresent, -, hdisjoint⟩ := hnodup
  rcases List.mem_append.1 (hms.symm.subset hx) with hx | hx
  · refine .inl (lookup_of_mem ?_ (List.mem_reverse.2 hx))
    rw [List.map_reverse]
    exact List.nodup_reverse.2 hpresent
  · refine .inr ⟨hx, lookup_of_notMem fun h => ?_⟩
    rw [List.map_reverse, List.mem_reverse] at h
    exact hdisjoint _ h _ (List.mem_map_of_mem hx) rfl

/-- The text of a record is read as the record: its fields find their members wherever these
stand. -/
theorem Record.reads {shape : Shape μ} {build : List μ → Option α} {v : α}
    (hs : Record W empty ms s) (hfits : List.Forall₂ (Field.Fits W empty) shape.fields ms)
    (hnodup : (ms.map Prod.fst).Nodup) (hbuild : build (ms.map Prod.snd) = some v) :
    Reads (shape.readAs build) s v := by
  obtain @⟨present, absent, s, hms, habsent, hs⟩ := hs
  have hkeys : ((present ++ absent).map Prod.fst).Nodup := (hms.map Prod.fst).nodup_iff.2 hnodup
  have hpresent : (present.map Prod.fst).Nodup := by
    rw [List.map_append] at hkeys
    exact hkeys.of_append_left
  have hread : ∀ x ∈ present, ∃ field, shape.fields.find? (·.name == x.1) = some field ∧
      ∀ v, W x.2 v → Reads field.read v x.2 := by
    intro x hx
    obtain ⟨field, hfield, hfit⟩ :=
      find?_of_fits hfits hnodup (hms.subset (List.mem_append_left _ hx))
    exact ⟨field, hfield, hfit.read⟩
  have hcollect : collect present.reverse shape.fields = .ok (ms.map Prod.snd) := by
    apply collect_of_fits hfits
    · intro x hx hsome
      rcases lookup_present hms hkeys hx with h | h
      · exact h
      · simp [h.2] at hsome
    · intro x hx hnone
      rcases lookup_present hms hkeys hx with h | h
      · simp [h] at hnone
      · exact habsent x h.1
  intro a t ha ht
  have hmembers : members shape.fields ((s ++ t).length + 1) true [] (s ++ t) =
      .ok (present.reverse ++ [], t) := by
    apply hs.read (names_of_fits hfits) hread hpresent
    · simp
    · simp only [List.length_append]
      omega
  have hshape : shape.read (a ++ (0x7B :: s ++ t)) = .ok (ms.map Prod.snd, t) := by
    rw [List.append_nil] at hmembers
    rw [List.cons_append, Shape.read, skipBlank_append ha (by decide)]
    simp only [if_neg (show (0x7B : UInt8) ≠ 0x5B by decide), if_true, hmembers, hcollect]
  simp only [Shape.readAs, hshape, hbuild]

/-! ## Reading lists -/

theorem Elements.closes {xs : List α} (hs : Elements V false xs s) (t : Bytes) :
    Closes (s ++ t) := by
  cases hs with
  | close ha =>
    rw [List.append_assoc]
    exact ha.closes (closes_bracket _)
  | more ha =>
    rw [List.append_assoc]
    exact ha.closes _

/-- The texts of a kind of value begin like values. -/
def Begins (V : α → Bytes → Prop) : Prop :=
  ∀ x v, V x v → ∃ b r, v = b :: r ∧ isSpace b = false ∧ b ≠ 0x5D

theorem nextElement_before (ha : Before first a) {b : UInt8} (hb : isSpace b = false)
    (hclosing : b ≠ 0x5D) (s : Bytes) : nextElement first (a ++ b :: s) = .ok (some (b :: s)) := by
  cases ha with
  | first ha =>
    rw [nextElement, skipBlank_append ha hb]
    simp [hclosing]
  | comma ha hb' =>
    rw [nextElement, List.append_assoc, List.cons_append, skipBlank_append ha (by decide)]
    simp [skipBlank_append hb' hb, hclosing]

theorem Elements.read {read : Reader α} {xs : List α} (hs : Elements V first xs s)
    (hread : ∀ x ∈ xs, ∀ v, V x v → Reads read v x) (hbegins : Begins V)
    (hfuel : s.length ≤ fuel) (t : Bytes) :
    elements read fuel first (s ++ t) = .ok (xs, t) := by
  induction hs generalizing fuel with
  | @close first a ha =>
    cases fuel with
    | zero => simp at hfuel
    | succ fuel =>
      rw [List.append_assoc, List.singleton_append, elements, nextElement,
        skipBlank_append ha (by decide)]
      simp only [if_true, endOfArray, skipBlank_append ha (show isSpace 0x5D = false by decide)]
      rfl
  | @more first a v r x xs ha hv hr ih =>
    rw [List.forall_mem_cons] at hread
    have hvalue := hread.1 v hv blank_nil (hr.closes t)
    obtain ⟨b, v, rfl, hspace, hclosing⟩ := hbegins x v hv
    simp only [List.length_append, List.length_cons] at hfuel
    obtain ⟨fuel, rfl⟩ : ∃ k, fuel = k + 1 := ⟨fuel - 1, by omega⟩
    have hnext := nextElement_before ha hspace hclosing (v ++ (r ++ t))
    simp only [List.append_assoc, List.cons_append, List.nil_append, elements, hnext] at hvalue ⊢
    rw [hvalue]
    dsimp only
    rw [ih hread.2 (by omega)]
    rfl

theorem Sequence.reads {read : Reader α} {xs : List α} (hs : Sequence V xs s)
    (hread : ∀ x ∈ xs, ∀ v, V x v → Reads read v x) (hbegins : Begins V) :
    Reads (readList read) s xs := by
  obtain @⟨s, hs⟩ := hs
  intro a t ha ht
  have helements : elements read ((s ++ t).length + 1) true (s ++ t) = .ok (xs, t) := by
    apply hs.read hread hbegins
    simp only [List.length_append]
    omega
  rw [List.cons_append, readList, skipBlank_append ha (by decide)]
  exact helements

/-! ## The compact form -/

section
open Text.Utf8

/-- The bytes of the characters that hold a text together. -/
theorem encode_punctuation : String.utf8EncodeChar ':' = [0x3A] ∧
    String.utf8EncodeChar ',' = [0x2C] ∧ String.utf8EncodeChar '\x7b' = [0x7B] ∧
    String.utf8EncodeChar '\x7d' = [0x7D] ∧ String.utf8EncodeChar '[' = [0x5B] ∧
    String.utf8EncodeChar ']' = [0x5D] := by decide

/-- A member in front of others. -/
theorem Members.cons {x : String × μ} (ha : Before first a) (hx : W x.2 s)
    (ht : Members W names false ms t) :
    Members W names first (x :: ms) (a ++ (encode (Text.write x.1) ++ 0x3A :: (s ++ t))) := by
  have hlabel : Label x.1 (encode (Text.write x.1) ++ ([] ++ [0x3A])) :=
    .mk (Text.quoted_write x.1) blank_nil
  simpa using Members.known ha hlabel blank_nil hx ht

theorem members_writeMembers {w : μ → List Char} (hw : ∀ x ∈ ms, W x.2 (encode (w x.2)))
    (hne : ms ≠ []) (ha : Before first a) : Members W names first ms
      (a ++ (encode (writeMembers (ms.map fun x => (x.1, w x.2))) ++ [0x7D])) := by
  induction ms generalizing first a with
  | nil => exact absurd rfl hne
  | cons x ms ih =>
    rw [List.forall_mem_cons] at hw
    cases ms with
    | nil =>
      have h : Members W names first [x] _ := .cons ha hw.1 (.close blank_nil)
      simpa [writeMembers, encode_punctuation] using h
    | cons y ms =>
      have h := Members.cons ha hw.1 (ih hw.2 (by simp) (.comma blank_nil blank_nil))
      simpa [writeMembers, encode_punctuation] using h

theorem record_writeObject {w : μ → List Char} (empty : List (String × μ))
    (hw : ∀ x ∈ ms, W x.2 (encode (w x.2))) :
    Record W empty ms (encode (writeObject (ms.map fun x => (x.1, w x.2)))) := by
  have hbytes : encode (writeObject (ms.map fun x => (x.1, w x.2))) =
      0x7B :: (encode (writeMembers (ms.map fun x => (x.1, w x.2))) ++ [0x7D]) := by
    simp [writeObject, encode_punctuation]
  rw [hbytes]
  have hms : (ms ++ []).Perm ms := by rw [List.append_nil]
  apply Record.mk hms (by simp)
  cases ms with
  | nil => exact .close blank_nil
  | cons x ms => exact members_writeMembers hw (by simp) (.first blank_nil)

/-- An element in front of others. -/
theorem elements_writeElements {w : α → List Char} {xs : List α}
    (hw : ∀ x ∈ xs, V x (encode (w x))) (hne : xs ≠ []) (ha : Before first a) :
    Elements V first xs (a ++ (encode (writeElements (xs.map w)) ++ [0x5D])) := by
  induction xs generalizing first a with
  | nil => exact absurd rfl hne
  | cons x xs ih =>
    rw [List.forall_mem_cons] at hw
    cases xs with
    | nil =>
      have h : Elements V first [x] _ := .more ha hw.1 (.close blank_nil)
      simpa [writeElements] using h
    | cons y xs =>
      have h := Elements.more ha hw.1 (ih hw.2 (by simp) (.comma blank_nil blank_nil))
      simpa [writeElements, encode_punctuation] using h

theorem sequence_writeList {w : α → List Char} {xs : List α} (hw : ∀ x ∈ xs, V x (encode (w x))) :
    Sequence V xs (encode (writeList (xs.map w))) := by
  have hbytes : encode (writeList (xs.map w)) =
      0x5B :: (encode (writeElements (xs.map w)) ++ [0x5D]) := by
    simp [writeList, encode_punctuation]
  rw [hbytes]
  apply Sequence.mk
  cases xs with
  | nil => exact .close blank_nil
  | cons x xs => exact elements_writeElements hw (by simp) (.first blank_nil)

end

end OrderDesk.Json
