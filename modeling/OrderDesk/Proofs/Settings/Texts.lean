import OrderDesk.Settings.Basic
import OrderDesk.Settings.Layer
import OrderDesk.Proofs.Decimal.Integer
import Mathlib.Data.List.TakeWhile

/-! # What the text of a variable stands for

* `OnePoint`: what no address is, but all that is read as a number or a truth value;
* `Settings.Scalar.ofText_of_numeral?`: a numeral stands for its integer;
* `Settings.Scalar.ofText_eq_text`: no host is taken for a number or a truth value. -/

namespace OrderDesk

/-! ## Points

An address of four octets has three points in it, and one of eight groups starts with a bracket. -/

/-- There is no bracket in the text and at most one point. -/
def OnePoint (s : List Char) : Prop := '[' ∉ s ∧ s.count '.' ≤ 1

/-- There is no bracket in the text and no point. -/
def NoPoint (s : List Char) : Prop := '[' ∉ s ∧ '.' ∉ s

instance (s : List Char) : Decidable (NoPoint s) := inferInstanceAs (Decidable (_ ∧ _))

variable {s t : List Char} {c : Char}

theorem NoPoint.onePoint (h : NoPoint s) : OnePoint s :=
  ⟨h.1, by rw [List.count_eq_zero_of_not_mem h.2]; exact Nat.zero_le 1⟩

theorem NoPoint.append (hs : NoPoint s) (ht : NoPoint t) : NoPoint (s ++ t) := by
  simp_all [NoPoint]

theorem OnePoint.append (hs : OnePoint s) (ht : NoPoint t) : OnePoint (s ++ t) := by
  refine ⟨by simp [hs.1, ht.1], ?_⟩
  rw [List.count_append, List.count_eq_zero_of_not_mem ht.2]
  exact hs.2

theorem NoPoint.point (hs : NoPoint s) (ht : NoPoint t) : OnePoint (s ++ '.' :: t) := by
  refine ⟨by simp [hs.1, ht.1], ?_⟩
  simp [List.count_append, List.count_eq_zero_of_not_mem hs.2, List.count_eq_zero_of_not_mem ht.2]

theorem NoPoint.of_forall (h : ∀ c ∈ s, c ≠ '[' ∧ c ≠ '.') : NoPoint s :=
  ⟨fun hs => (h _ hs).1 rfl, fun hs => (h _ hs).2 rfl⟩

theorem noPoint_of_isDigit (h : ∀ c ∈ s, c.isDigit) : NoPoint s :=
  .of_forall fun c hc => ⟨by rintro rfl; simpa using h _ hc, by rintro rfl; simpa using h _ hc⟩

theorem NoPoint.cons (hs : NoPoint s) (hc : c ≠ '[' ∧ c ≠ '.') : NoPoint (c :: s) := by
  simp_all [NoPoint, eq_comm]

theorem OnePoint.cons (hs : OnePoint s) (hc : c ≠ '[' ∧ c ≠ '.') : OnePoint (c :: s) := by
  refine ⟨by simp [hc.1.symm, hs.1], ?_⟩
  rw [List.count_cons_of_ne hc.2]
  exact hs.2

theorem Decimal.numeral?_noPoint {i : Int} (h : Decimal.numeral? s = some i) : NoPoint s :=
  .of_forall fun c hc => by
    rcases (Decimal.numeral?_digits h).2 c hc with hdigit | rfl | rfl
    · exact ⟨by rintro rfl; simp at hdigit, by rintro rfl; simp at hdigit⟩
    · decide
    · decide

namespace Double

theorem toLower_mem_of_isWord {word : String} (h : isWord word s) (hc : c ∈ s) :
    c.toLower ∈ word.toList := by
  rw [← eq_of_beq h]
  exact List.mem_map_of_mem hc

theorem isWord_noPoint {word : String} (hword : NoPoint word.toList) (h : isWord word s) :
    NoPoint s :=
  ⟨fun hc => hword.1 (toLower_mem_of_isWord h hc), fun hc => hword.2 (toLower_mem_of_isWord h hc)⟩

theorem readExponent?_noPoint {e : Int} (h : readExponent? s = some e) : NoPoint s := by
  unfold readExponent? at h
  split at h
  next negative ds hsign =>
    have hds : NoPoint ds := by
      split at h
      · cases h
      · next hall => exact noPoint_of_isDigit (by simp_all)
    split at hsign <;> cases hsign
    · exact hds.cons (by decide)
    · exact hds.cons (by decide)
    · exact hds

theorem takeWhile_noPoint (s : List Char) : NoPoint (s.takeWhile Char.isDigit) :=
  noPoint_of_isDigit fun _ hc => List.mem_takeWhile_imp hc

/-- Whether there is a fraction or not, what comes before the rest has at most one point. -/
theorem onePoint_of_rest {fraction rest : List Char}
    (h : (match s.dropWhile Char.isDigit with
      | '.' :: t => (t.takeWhile Char.isDigit, t.dropWhile Char.isDigit)
      | t => ([], t)) = (fraction, rest)) (hrest : NoPoint rest) : OnePoint s := by
  rw [← List.takeWhile_append_dropWhile (p := Char.isDigit) (l := s)]
  split at h
  · next t ht =>
    cases h
    rw [ht]
    refine (takeWhile_noPoint s).point ?_
    rw [← List.takeWhile_append_dropWhile (p := Char.isDigit) (l := t)]
    exact (takeWhile_noPoint t).append hrest
  · cases h
    exact ((takeWhile_noPoint s).append hrest).onePoint

theorem readDecimal?_onePoint {negative : Bool} {d : Decimal}
    (h : readDecimal? negative s = some d) : OnePoint s := by
  unfold readDecimal? at h
  split at h
  next fraction rest hrest =>
    split at h
    · exact onePoint_of_rest hrest (by decide)
    · next c t =>
      refine onePoint_of_rest hrest ?_
      dsimp only at h
      split at h
      · cases h
      · split at h
        · next hc =>
          obtain ⟨e, he, -⟩ := Option.map_eq_some_iff.1 h
          refine (readExponent?_noPoint he).cons ?_
          simp only [Bool.or_eq_true, beq_iff_eq] at hc
          rcases hc with rfl | rfl <;> decide
        · cases h

theorem readMagnitude?_onePoint {negative : Bool} {x : Double}
    (h : readMagnitude? negative s = some x) : OnePoint s := by
  unfold readMagnitude? at h
  split at h
  · next hword =>
    rcases Bool.or_eq_true_iff.1 hword with hword | hword
    · exact (isWord_noPoint (by decide) hword).onePoint
    · exact (isWord_noPoint (by decide) hword).onePoint
  · split at h
    · next hword => exact (isWord_noPoint (by decide) hword).onePoint
    · obtain ⟨d, hd, -⟩ := Option.map_eq_some_iff.1 h
      exact readDecimal?_onePoint hd

theorem read?_onePoint {x : Double} (h : read? s = some x) : OnePoint s := by
  unfold read? at h
  split at h
  · exact (readMagnitude?_onePoint h).cons (by decide)
  · exact (readMagnitude?_onePoint h).cons (by decide)
  · exact readMagnitude?_onePoint h

end Double

namespace Address

theorem count_dropWhile_le (p : Char → Bool) (s : List Char) :
    (s.dropWhile p).count c ≤ s.count c :=
  (List.dropWhile_suffix p).sublist.count_le c

theorem skip?_eq_some_iff : skip? c s = some t ↔ s = c :: t := by
  cases s <;> simp [skip?, eq_comm]

theorem count_of_octet? {o : Nat} (h : octet? s = some (o, t)) : t.count '.' ≤ s.count '.' := by
  unfold octet? number? at h
  dsimp only at h
  split at h
  · cases h
  · split at h
    · cases h
      exact count_dropWhile_le _ s
    · cases h

theorem count_of_octets? {n : Nat} {os : List Nat} (h : octets? n s = some (os, t)) :
    n + t.count '.' ≤ s.count '.' := by
  induction n generalizing s os with
  | zero =>
    cases h
    simp
  | succ n ih =>
    simp only [octets?, bind, Option.bind_eq_some_iff, pure, Prod.exists, Option.some.injEq,
      Prod.mk.injEq] at h
    obtain ⟨u, hu, o, v, ho, os', w, hos, -, rfl⟩ := h
    have hoctet := count_of_octet? ho
    have hrest := ih hos
    rw [skip?_eq_some_iff.1 hu, List.count_cons_self]
    omega

theorem count_of_quad? {os : List Nat} (h : quad? s = some (os, t)) : 3 ≤ s.count '.' := by
  simp only [quad?, bind, Option.bind_eq_some_iff, pure, Prod.exists, Option.some.injEq,
    Prod.mk.injEq] at h
  obtain ⟨o, u, ho, os', v, hos, -, -⟩ := h
  have hoctet := count_of_octet? ho
  have hrest := count_of_octets? hos
  omega

theorem not_onePoint_of_parse? {s : String} (h : (parse? s).isSome) : ¬ OnePoint s.toList := by
  rintro ⟨hbracket, hcount⟩
  obtain ⟨a, ha⟩ := Option.isSome_iff_exists.1 h
  cases hv4 : readV4? s.toList with
  | some a' =>
    simp only [readV4?, bind, Option.bind_eq_some_iff, Prod.exists] at hv4
    obtain ⟨os, t, hquad, -⟩ := hv4
    have := count_of_quad? hquad
    omega
  | none =>
    have hv6 : readV6? s.toList = some a := by simpa [parse?, hv4] using ha
    simp only [readV6?, bind, Option.bind_eq_some_iff] at hv6
    obtain ⟨t, ht, -⟩ := hv6
    exact hbracket (skip?_eq_some_iff.1 ht ▸ List.mem_cons_self)

end Address

namespace Settings

variable {text : String}

theorem ServerSettings.not_onePoint {s : ServerSettings} (h : s.address?.isSome) :
    ¬ OnePoint s.host.toList := by
  intro hhost
  refine Address.not_onePoint_of_parse? h ?_
  have hport : NoPoint (toString s.portNumber).toList := by
    refine noPoint_of_isDigit fun c hc => ?_
    rw [show toString s.portNumber = .ofList (Nat.toDigits 10 s.portNumber) from rfl,
      String.toList_ofList] at hc
    exact Nat.isDigit_of_mem_toDigits (by decide) (by decide) hc
  have haddress : (toString s.host ++ toString ":" ++ toString s.portNumber).toList =
      s.host.toList ++ ':' :: (toString s.portNumber).toList := by
    rw [String.toList_append, String.toList_append, List.append_assoc]
    rfl
  rw [haddress]
  exact hhost.append (hport.cons (by decide))

theorem toLower_of_isDigit {c : Char} (hc : c.isDigit) : c.toLower = c := by
  refine dif_neg fun h => ?_
  have hupper : 'A'.toNat ≤ c.toNat := h.1
  have hhigh := (Char.isDigit_iff_toNat.1 hc).2
  exact absurd (Nat.le_trans hupper hhigh) (by decide)

/-- A numeral of 63 bits is no word. -/
theorem Scalar.ofText_of_numeral? {i : Int} (h : Decimal.numeral? text.toList = some i)
    (hlow : 0 ≤ i) (hhigh : i.toNat < Nat.pow 2 63) : Scalar.ofText text = .integer i := by
  obtain ⟨⟨c, hc, hdigit⟩, -⟩ := Decimal.numeral?_digits h
  have hword (word : String) (hnone : word.toList.any Char.isDigit = false) :
      Double.isWord word text.toList = false := by
    refine Bool.eq_false_iff.2 fun hword => ?_
    have hmem := Double.toLower_mem_of_isWord hword hc
    rw [toLower_of_isDigit hdigit] at hmem
    simp [List.any_eq_false.1 hnone c hmem] at hdigit
  have hread : Decimal.readSigned (Nat.pow 2 63 - 1) text.toList = .ok i :=
    Decimal.readSigned_eq_ok_iff.2 ⟨h, by omega, by omega⟩
  simp only [ofText, hword "true" (by decide), hword "false" (by decide), hread,
    Bool.false_eq_true, if_false]

/-- No host is taken for a number or a truth value. -/
theorem Scalar.ofText_eq_text (h : ¬ OnePoint text.toList) : Scalar.ofText text = .text text := by
  have hread : Double.read? text.toList = none := by
    cases hd : Double.read? text.toList with
    | none => rfl
    | some x => exact absurd (Double.read?_onePoint hd) h
  unfold Scalar.ofText
  split
  · next hword => exact absurd (Double.isWord_noPoint (by decide) hword).onePoint h
  · split
    · next hword => exact absurd (Double.isWord_noPoint (by decide) hword).onePoint h
    · split
      · next n hn =>
        exact absurd (Decimal.numeral?_noPoint (Decimal.readSigned_eq_ok_iff.1 hn).1).onePoint h
      · rw [hread]

end Settings

end OrderDesk
