import Mathlib.Data.List.TakeWhile
import OrderDesk.Order.Validation

/-!
# Email addresses

What an address is (`Validation.Address`), and that exactly the addresses are accepted, whatever
blanks stand around them (`Validation.isEmail_trim_iff`). The labels of a domain are what a split at
the dots gives (`Validation.labels_eq_splitOn`).
-/

namespace OrderDesk

/-! ## Texts without the blanks around them -/

namespace Text

variable {s t before after : List Char}

/-- Only blanks are cut. -/
theorem exists_trim (s : List Char) : ∃ before after, s = before ++ trim s ++ after ∧
    (∀ c ∈ before, isBlank c) ∧ ∀ c ∈ after, isBlank c := by
  have hstart : s.takeWhile isBlank ++ trimStart s = s := List.takeWhile_append_dropWhile
  have hend : trim s ++ ((trimStart s).reverse.takeWhile isBlank).reverse = trimStart s := by
    rw [trim, trimEnd, trimStart, ← List.reverse_append, List.takeWhile_append_dropWhile,
      List.reverse_reverse]
  refine ⟨s.takeWhile isBlank, ((trimStart s).reverse.takeWhile isBlank).reverse, ?_,
    fun c hc => List.mem_takeWhile_imp hc, fun c hc => ?_⟩
  · rw [List.append_assoc, hend, hstart]
  · exact List.mem_takeWhile_imp (List.mem_reverse.1 hc)

/-- A text without blanks comes out of the blanks around it. -/
theorem trim_append (hbefore : ∀ c ∈ before, isBlank c) (hafter : ∀ c ∈ after, isBlank c)
    (hne : s ≠ []) (hs : ∀ c ∈ s, ¬isBlank c) : trim (before ++ s ++ after) = s := by
  have hstart : trimStart (before ++ s ++ after) = s ++ after := by
    rw [List.append_assoc, trimStart_append_of_blank (List.all_eq_true.2 hbefore)]
    obtain ⟨c, rest, rfl⟩ := List.exists_cons_of_ne_nil hne
    exact List.dropWhile_cons_of_neg (hs c List.mem_cons_self)
  have hend : trimStart (after.reverse ++ s.reverse) = s.reverse := by
    rw [trimStart_append_of_blank (List.all_eq_true.2 fun c hc => hafter c (List.mem_reverse.1 hc))]
    obtain ⟨c, rest, hrest⟩ := List.exists_cons_of_ne_nil (List.reverse_ne_nil_iff.2 hne)
    have hc : c ∈ s := List.mem_reverse.1 (hrest ▸ List.mem_cons_self)
    rw [hrest]
    exact List.dropWhile_cons_of_neg (hs c hc)
  rw [trim, hstart, trimEnd, List.reverse_append, hend, List.reverse_reverse]

/-- Not all of a text is blank. -/
theorem allBlank_eq_false_iff (s : String) : (!allBlank s) = true ↔ ∃ c ∈ s.toList, ¬isBlank c := by
  simp [allBlank]

end Text

namespace Validation

variable {s user : List Char} {parts : List (List Char)}

/-! ## Labels -/

theorem labels_cons (c : Char) (s : List Char) :
    labels (c :: s) = if c = '.' then [] :: labels s else (labels s).modifyHead (c :: ·) := by
  have hne : labels s ≠ [] := by
    cases s with
    | nil => exact List.cons_ne_nil _ _
    | cons d s =>
      rw [labels, List.foldr_cons]
      split
      · exact List.cons_ne_nil _ _
      · split <;> exact List.cons_ne_nil _ _
  obtain ⟨part, parts, hparts⟩ := List.exists_cons_of_ne_nil hne
  rw [hparts, labels, List.foldr_cons, ← labels, hparts]
  rfl

theorem labels_eq_splitOn (s : List Char) : labels s = s.splitOn '.' := by
  induction s with
  | nil => rfl
  | cons c s ih =>
    rw [labels_cons, ih, List.splitOn, List.splitOn, List.splitOnP_cons_eq_if_modifyHead]
    simp only [beq_iff_eq]

theorem intercalate_labels (s : List Char) : ['.'].intercalate (labels s) = s := by
  rw [labels_eq_splitOn, List.intercalate_splitOn]

theorem labels_intercalate (hne : parts ≠ []) (h : ∀ l ∈ parts, '.' ∉ l) :
    labels (['.'].intercalate parts) = parts := by
  rw [labels_eq_splitOn, List.splitOn_intercalate '.' h hne]

theorem notMem_of_mem_labels (s : List Char) : ∀ l ∈ labels s, '.' ∉ l := by
  induction s with
  | nil => simp [labels]
  | cons c s ih =>
    intro l hl
    rw [labels_cons] at hl
    split at hl
    · rcases List.mem_cons.1 hl with rfl | hl
      · exact List.not_mem_nil
      · exact ih l hl
    · rename_i hc
      cases hparts : labels s with
      | nil =>
        rw [hparts] at hl
        cases hl
      | cons part parts =>
        rw [hparts] at hl ih
        rcases List.mem_cons.1 hl with rfl | hl
        · intro hmem
          rcases List.mem_cons.1 hmem with h | h
          · exact hc h.symm
          · exact ih part List.mem_cons_self h
        · exact ih l (List.mem_cons_of_mem _ hl)

/-- There is a dot exactly if there are two labels or more. -/
theorem mem_iff_length_labels (s : List Char) : '.' ∈ s ↔ 2 ≤ (labels s).length := by
  have hs := intercalate_labels s
  cases hparts : labels s with
  | nil => rw [labels_eq_splitOn] at hparts; exact absurd hparts (List.splitOnP_ne_nil _ _)
  | cons part parts =>
    rw [hparts] at hs
    cases parts with
    | nil =>
      have hpart : part = s := by simpa [List.intercalate] using hs
      have hdot := notMem_of_mem_labels s part (hparts ▸ List.mem_cons_self)
      rw [hpart] at hdot
      simp [hdot]
    | cons part' parts =>
      refine iff_of_true ?_ (by simp)
      rw [← hs]
      simp [List.intercalate]

/-! ## Addresses -/

/-- The text is `user@label.label…`. -/
structure Address (s user : List Char) (parts : List (List Char)) : Prop where
  text : s = user ++ '@' :: ['.'].intercalate parts
  user_ne_nil : user ≠ []
  once : s.count '@' = 1
  unbroken : ∀ c ∈ s, ¬Text.isBlank c
  two : 2 ≤ parts.length
  parts : ∀ l ∈ parts, l ≠ [] ∧ '.' ∉ l

/-- What is accepted is split at its one `@`, and its domain at the dots. -/
theorem isEmail_eq_true_iff {domain : List Char} (huser : '@' ∉ user) :
    isEmail (user ++ '@' :: domain) ↔ user ≠ [] ∧ '@' ∉ domain ∧
      (∀ c ∈ user ++ '@' :: domain, ¬Text.isBlank c) ∧ '.' ∈ domain ∧
      ∀ l ∈ labels domain, l ≠ [] := by
  have hbefore : ∀ c ∈ user, decide (c ≠ '@') = true := fun c hc =>
    decide_eq_true fun h : c = '@' => huser (h ▸ hc)
  have htake : (user ++ '@' :: domain).takeWhile (· ≠ '@') = user := by
    rw [List.takeWhile_append_of_pos hbefore]
    simp
  have hdrop : (user ++ '@' :: domain).dropWhile (· ≠ '@') = '@' :: domain := by
    rw [List.dropWhile_append_of_pos hbefore]
    simp
  simp only [isEmail, htake, hdrop, Bool.and_eq_true, Bool.not_eq_true', List.isEmpty_eq_false_iff,
    List.contains_eq_mem, decide_eq_false_iff_not, decide_eq_true_eq, List.any_eq_false,
    List.all_eq_true, and_assoc]

/-- Exactly the addresses are accepted. -/
theorem isEmail_iff (s : List Char) : isEmail s ↔ ∃ user parts, Address s user parts := by
  constructor
  · intro h
    have hsplit : s.takeWhile (· ≠ '@') ++ s.dropWhile (· ≠ '@') = s :=
      List.takeWhile_append_dropWhile
    cases hdrop : s.dropWhile (· ≠ '@') with
    | nil =>
      rw [isEmail, hdrop] at h
      cases h
    | cons c domain =>
      obtain rfl : c = '@' := by
        have hc := List.head?_dropWhile_not (· ≠ '@') s
        rw [hdrop] at hc
        simpa using hc
      rw [hdrop] at hsplit
      have huser : '@' ∉ s.takeWhile (· ≠ '@') := fun hmem => by
        simpa using List.mem_takeWhile_imp hmem
      rw [← hsplit, isEmail_eq_true_iff huser] at h
      obtain ⟨hne, hdomain, hblank, hdot, hparts⟩ := h
      refine ⟨_, labels domain, ?_, hne, ?_, hsplit ▸ hblank, (mem_iff_length_labels _).1 hdot,
        fun l hl => ⟨hparts l hl, notMem_of_mem_labels _ l hl⟩⟩
      · rw [intercalate_labels, hsplit]
      · rw [← hsplit, List.count_append, List.count_cons_self, List.count_eq_zero_of_not_mem huser,
          List.count_eq_zero_of_not_mem hdomain]
  · rintro ⟨user, parts, h⟩
    have hparts : labels (['.'].intercalate parts) = parts :=
      labels_intercalate (List.ne_nil_of_length_pos (Nat.lt_of_succ_lt h.two))
        fun l hl => (h.parts l hl).2
    have honce := h.once
    have hblank := h.unbroken
    rw [h.text, List.count_append, List.count_cons_self] at honce
    have huser : '@' ∉ user := List.count_eq_zero.1 (by omega)
    have hdomain : '@' ∉ ['.'].intercalate parts := List.count_eq_zero.1 (by omega)
    rw [h.text] at hblank ⊢
    rw [isEmail_eq_true_iff huser, mem_iff_length_labels, hparts]
    exact ⟨h.user_ne_nil, hdomain, hblank, h.two, fun l hl => (h.parts l hl).1⟩

/-- Blanks may stand around an address. -/
theorem isEmail_trim_iff (s : List Char) : isEmail (Text.trim s) ↔
    ∃ before address after user parts, s = before ++ address ++ after ∧
      (∀ c ∈ before, Text.isBlank c) ∧ (∀ c ∈ after, Text.isBlank c) ∧
      Address address user parts := by
  rw [isEmail_iff]
  constructor
  · rintro ⟨user, parts, h⟩
    obtain ⟨before, after, hs, hbefore, hafter⟩ := Text.exists_trim s
    exact ⟨before, _, after, user, parts, hs, hbefore, hafter, h⟩
  · rintro ⟨before, address, after, user, parts, rfl, hbefore, hafter, h⟩
    have hne : address ≠ [] := by
      rw [h.text]
      exact List.append_ne_nil_of_right_ne_nil _ (List.cons_ne_nil _ _)
    rw [Text.trim_append hbefore hafter hne h.unbroken]
    exact ⟨user, parts, h⟩

end Validation

end OrderDesk
