import Mathlib.Algebra.Group.Int.Defs
import OrderDesk.Json.Record
import OrderDesk.Proofs.Json.Reader

/-!
# Numbers read back

A number of any form is passed over as a whole (`Numeral.skip`). The written form of an integer of
64 bits is read as that integer (`reads_writeInt`): its digits have no leading zero
(`whole_decimal`), and they are gathered without a loss (`gather_eq`).
-/

namespace OrderDesk.Json

namespace Number

/-- One digit or more. -/
def Digits (s : Bytes) : Prop := s ≠ [] ∧ ∀ b ∈ s, isDigit b

/-- What stands before the point: no other digit follows a leading zero. -/
inductive Whole : Bytes → Prop
  | zero : Whole [0x30]
  | digits {b : UInt8} {s : Bytes} (hb : isDigit b) (hzero : b ≠ 0x30)
      (hs : ∀ b ∈ s, isDigit b) : Whole (b :: s)

inductive Fraction : Bytes → Prop
  | none : Fraction []
  | digits {s : Bytes} (hs : Digits s) : Fraction (0x2E :: s)

inductive Exponent : Bytes → Prop
  | none : Exponent []
  | plain {e : UInt8} {s : Bytes} (he : e = 0x65 ∨ e = 0x45) (hs : Digits s) : Exponent (e :: s)
  | signed {e sign : UInt8} {s : Bytes} (he : e = 0x65 ∨ e = 0x45)
      (hsign : sign = 0x2B ∨ sign = 0x2D) (hs : Digits s) : Exponent (e :: sign :: s)

/-- A number of any form. -/
inductive Numeral : Bytes → Prop
  | positive {w f e : Bytes} (hw : Whole w) (hf : Fraction f) (he : Exponent e) :
      Numeral (w ++ (f ++ e))
  | negative {w f e : Bytes} (hw : Whole w) (hf : Fraction f) (he : Exponent e) :
      Numeral (0x2D :: (w ++ (f ++ e)))

variable {s t w f e : Bytes} {b : UInt8} {n : Nat}

/-! ## Passing over -/

/-- Digits end before this rest. -/
def EndsDigits (s : Bytes) : Prop := ∀ b ∈ s.head?, isDigit b = false

theorem dropWhile_digits (hs : ∀ b ∈ s, isDigit b) (ht : EndsDigits t) :
    (s ++ t).dropWhile isDigit = t := by
  rw [List.dropWhile_append_of_pos hs]
  cases t with
  | nil => rfl
  | cons b t => rw [List.dropWhile_cons_of_neg (by simp [ht b rfl])]

theorem takeWhile_digits (hs : ∀ b ∈ s, isDigit b) (ht : EndsDigits t) :
    (s ++ t).takeWhile isDigit = s := by
  rw [List.takeWhile_append_of_pos hs]
  cases t with
  | nil => simp
  | cons b t => rw [List.takeWhile_cons_of_neg (by simp [ht b rfl]), List.append_nil]

theorem endsDigits_of_closes (ht : Closes t) : EndsDigits t := by
  cases t with
  | nil => simp [EndsDigits]
  | cons b t =>
    intro c hc
    cases hc
    exact ht.head.1

theorem Exponent.endsDigits (he : Exponent e) (ht : Closes t) : EndsDigits (e ++ t) := by
  cases he with
  | none => exact endsDigits_of_closes ht
  | plain he hs =>
    intro c hc
    cases hc
    rcases he with rfl | rfl <;> decide
  | signed he hsign hs =>
    intro c hc
    cases hc
    rcases he with rfl | rfl <;> decide

theorem Fraction.endsDigits (hf : Fraction f) (he : Exponent e) (ht : Closes t) :
    EndsDigits (f ++ (e ++ t)) := by
  cases hf with
  | none => exact he.endsDigits ht
  | digits hs =>
    intro c hc
    cases hc
    decide

theorem skipExponent_digits (hs : Digits s) (ht : Closes t) : skipExponent (s ++ t) = .ok t := by
  obtain ⟨hne, hs⟩ := hs
  cases s with
  | nil => exact absurd rfl hne
  | cons b s =>
    rw [List.forall_mem_cons] at hs
    have hrest := dropWhile_digits hs.2 (endsDigits_of_closes ht)
    have hplus : b ≠ 0x2B := by
      rintro rfl
      exact absurd hs.1 (by decide)
    have hminus : b ≠ 0x2D := by
      rintro rfl
      exact absurd hs.1 (by decide)
    simp [skipExponent, hplus, hminus, hs.1, hrest]

theorem skipExponent_sign (hb : b = 0x2B ∨ b = 0x2D) (hs : Digits s) (ht : Closes t) :
    skipExponent (b :: (s ++ t)) = .ok t := by
  have hplain := skipExponent_digits hs ht
  obtain ⟨hne, hs⟩ := hs
  cases s with
  | nil => exact absurd rfl hne
  | cons c s =>
    rw [List.forall_mem_cons] at hs
    have hrest := dropWhile_digits hs.2 (endsDigits_of_closes ht)
    rcases hb with rfl | rfl <;> simp [skipExponent, hs.1, hrest]

/-- There is an exponent, or the rest is what may follow a value. -/
theorem Exponent.cases (he : Exponent e) (ht : Closes t) :
    (∃ b s, e ++ t = b :: s ∧ (b = 0x65 ∨ b = 0x45) ∧ skipExponent s = .ok t) ∨ e ++ t = t := by
  cases he with
  | none => exact .inr rfl
  | plain he hs => exact .inl ⟨_, _, rfl, he, skipExponent_digits hs ht⟩
  | signed he hsign hs => exact .inl ⟨_, _, rfl, he, skipExponent_sign hsign hs ht⟩

theorem skipFraction_digits (hs : Digits s) (he : Exponent e) (ht : Closes t) :
    skipFraction (s ++ (e ++ t)) = .ok t := by
  have hrest := dropWhile_digits hs.2 (he.endsDigits ht)
  have hlength : (e ++ t).length ≠ (s ++ (e ++ t)).length := by
    have hpos : 0 < s.length := List.length_pos_iff.2 hs.1
    simp only [List.length_append]
    omega
  rw [skipFraction, hrest]
  simp only [if_neg hlength]
  rcases he.cases ht with ⟨b, r, hr, hb, hskip⟩ | hr
  · rw [hr]
    rcases hb with rfl | rfl <;> simpa using hskip
  · rw [hr]
    cases t with
    | nil => rfl
    | cons b t => simp [ht.head]

theorem skipAfterInteger_rest (hf : Fraction f) (he : Exponent e) (ht : Closes t) :
    skipAfterInteger (f ++ (e ++ t)) = .ok t := by
  cases hf with
  | digits hs => simpa [skipAfterInteger] using skipFraction_digits hs he ht
  | none =>
    rw [List.nil_append]
    rcases he.cases ht with ⟨b, r, hr, hb, hskip⟩ | hr
    · rw [hr]
      rcases hb with rfl | rfl <;> simpa [skipAfterInteger] using hskip
    · rw [hr]
      cases t with
      | nil => rfl
      | cons b t => simp [skipAfterInteger, ht.head]

theorem skipMagnitude_whole (hw : Whole w) (hf : Fraction f) (he : Exponent e) (ht : Closes t) :
    skipMagnitude (w ++ (f ++ (e ++ t))) = .ok t := by
  have hskip := skipAfterInteger_rest hf he ht
  have hends := hf.endsDigits he ht
  cases hw with
  | zero =>
    cases h : f ++ (e ++ t) with
    | nil =>
      rw [h] at hskip
      exact hskip
    | cons b s =>
      rw [h] at hskip hends
      have hb : isDigit b = false := hends b rfl
      simpa [skipMagnitude, hb] using hskip
  | @digits b s hb hzero hs =>
    have hrest := dropWhile_digits hs hends
    simp [skipMagnitude, hb, hzero, hrest, hskip]

theorem Whole.head (hw : Whole w) : ∃ b s, w = b :: s ∧ isDigit b := by
  cases hw with
  | zero => exact ⟨_, _, rfl, rfl⟩
  | digits hb => exact ⟨_, _, rfl, hb⟩

/-- A number begins with a sign or a digit. -/
theorem Numeral.head (hs : Numeral s) : ∃ b r, s = b :: r ∧ (b = 0x2D ∨ isDigit b) := by
  cases hs with
  | negative hw hf he => exact ⟨_, _, rfl, .inl rfl⟩
  | positive hw hf he =>
    obtain ⟨b, r, rfl, hb⟩ := hw.head
    exact ⟨b, _, rfl, .inr hb⟩

/-- A number is passed over as a whole. -/
theorem Numeral.skip (hs : Numeral s) (ht : Closes t) : skip (s ++ t) = .ok t := by
  cases hs with
  | negative hw hf he => simpa [Number.skip] using skipMagnitude_whole hw hf he ht
  | positive hw hf he =>
    have hskip := skipMagnitude_whole hw hf he ht
    obtain ⟨b, r, rfl, hb⟩ := hw.head
    have hminus : b ≠ 0x2D := by
      rintro rfl
      exact absurd hb (by decide)
    simpa [Number.skip, hminus] using hskip

/-! ## Decimal digits -/

def digitByte (d : Nat) : UInt8 := .ofNat (0x30 + d)

/-- The digits of a number in decimal. -/
def decimal (n : Nat) : Bytes := Text.Utf8.encode (Nat.toDigits 10 n)

/-- The number that digits continue `n` to. -/
def continued (n : Nat) (s : Bytes) : Nat := s.foldl (fun n b => n * 10 + digitValue b) n

theorem digitByte_of_lt {d : Nat} (hd : d < 10) :
    isDigit (digitByte d) ∧ digitValue (digitByte d) = d ∧ (digitByte d = 0x30 → d = 0) := by
  have hall : ∀ d < 10, isDigit (digitByte d) ∧ digitValue (digitByte d) = d ∧
      (digitByte d = 0x30 → d = 0) := by decide
  exact hall d hd

theorem decimal_of_lt (hn : n < 10) : decimal n = [digitByte n] := by
  have hdigit : ∀ k < 10, Text.Utf8.encode [Nat.digitChar k] = [digitByte k] := by decide
  rw [decimal, Nat.toDigits_of_lt_base hn, hdigit n hn]

theorem decimal_of_le (hn : 10 ≤ n) : decimal n = decimal (n / 10) ++ [digitByte (n % 10)] := by
  have hmod : n % 10 < 10 := Nat.mod_lt n (by decide)
  rw [← decimal_of_lt hmod, decimal, Nat.toDigits_of_base_le (by decide) hn,
    Text.Utf8.encode_append, decimal, decimal, Nat.toDigits_of_lt_base hmod]

/-- What holds of a single digit, and of digits with one more behind them, holds of the digits of
every number. -/
theorem decimal_induction {P : Nat → Bytes → Prop} (hlast : ∀ d < 10, P d [digitByte d])
    (hmore : ∀ n d s, 0 < n → d < 10 → P n s → P (10 * n + d) (s ++ [digitByte d])) (n : Nat) :
    P n (decimal n) := by
  induction n using Nat.strongRecOn with
  | _ n ih =>
    by_cases hn : n < 10
    · rw [decimal_of_lt hn]
      exact hlast n hn
    · rw [decimal_of_le (by omega)]
      have h := hmore (n / 10) (n % 10) _ (by omega) (by omega) (ih (n / 10) (by omega))
      rwa [Nat.div_add_mod] at h

theorem continued_append (n : Nat) (s t : Bytes) :
    continued n (s ++ t) = continued (continued n s) t :=
  List.foldl_append

theorem le_continued (n : Nat) (s : Bytes) : n ≤ continued n s := by
  induction s generalizing n with
  | nil => exact Nat.le_refl n
  | cons b s ih =>
    have h := ih (n * 10 + digitValue b)
    simp only [continued, List.foldl_cons] at h ⊢
    omega

theorem continued_decimal (n : Nat) : continued 0 (decimal n) = n := by
  apply decimal_induction (P := fun n s => continued 0 s = n)
  · intro d hd
    simp [continued, digitByte_of_lt hd]
  · intro n d s hn hd ih
    rw [continued_append, ih]
    simp only [continued, List.foldl_cons, List.foldl_nil, digitByte_of_lt hd]
    omega

/-- No digit follows a leading zero, since the digits before the last one are those of a number that
is not zero. -/
theorem whole_decimal (n : Nat) : Whole (decimal n) := by
  have h : Whole (decimal n) ∧ (0 < n → decimal n ≠ [0x30]) := by
    apply decimal_induction (P := fun n s => Whole s ∧ (0 < n → s ≠ [0x30]))
    · intro d hd
      obtain ⟨hdigit, -, hzero⟩ := digitByte_of_lt hd
      by_cases h : d = 0
      · subst h
        exact ⟨.zero, fun h => absurd h (by decide)⟩
      · have hne : digitByte d ≠ 0x30 := fun he => h (hzero he)
        exact ⟨.digits hdigit hne (by simp), by simp [hne]⟩
    · intro n d s hn hd ⟨hw, hne⟩
      cases hw with
      | zero => exact absurd rfl (hne hn)
      | digits hb hzero hs =>
        refine ⟨.digits hb hzero ?_, by simp⟩
        intro b hb
        rcases List.mem_append.1 hb with hb | hb
        · exact hs b hb
        · rw [List.eq_of_mem_singleton hb]
          exact (digitByte_of_lt hd).1
  exact h.1

/-! ## Reading -/

/-- Digits are gathered to the end as long as their number fits. -/
theorem gather_eq (hs : continued n s ≤ maxSignificand) : gather n s = (continued n s, []) := by
  induction s generalizing n with
  | nil => rfl
  | cons b s ih =>
    have hle : n * 10 + digitValue b ≤ continued n (b :: s) := le_continued _ s
    rw [gather, if_neg (by omega)]
    exact ih hs

/-- An integer stays one if it fits 64 bits. -/
theorem afterInteger_of_closes (ht : Closes t) {negative : Bool}
    (hn : negative → 0 < n ∧ n ≤ Nat.pow 2 63) :
    afterInteger negative n 0 t = .ok (.integer (if negative then -n else n), t) := by
  have hwhole : (if !negative then .ok (.integer n, t)
      else if n = 0 || Nat.pow 2 63 < n then .ok (ofFloat true (Float.ofNat n), t)
      else .ok (.integer (-n), t) : Except Fault (Number × Bytes)) =
      .ok (.integer (if negative then -n else n), t) := by
    cases negative with
    | false => rfl
    | true =>
      obtain ⟨hpos, hle⟩ := hn rfl
      have hzero : n ≠ 0 := by omega
      have hlt : ¬ Nat.pow 2 63 < n := by omega
      simp [hzero, hlt]
  cases t with
  | nil => simpa [afterInteger] using hwhole
  | cons b t => 
    simpa [afterInteger, ht.head] using hwhole

theorem magnitude_decimal (hn : n ≤ maxSignificand) (negative : Bool) (ht : Closes t) :
    magnitude negative (decimal n ++ t) = afterInteger negative n 0 t := by
  have hvalue := continued_decimal n
  have hends := endsDigits_of_closes ht
  have hwhole := whole_decimal n
  generalize decimal n = s at hvalue hwhole ⊢
  cases hwhole with
  | zero =>
    have hzero : n = 0 := by simpa [continued, digitValue] using hvalue.symm
    subst hzero
    cases t with
    | nil => rfl
    | cons b t =>
      have hb : isDigit b = false := hends b rfl
      simp [magnitude, hb]
  | @digits b s hb hzero hs =>
    have hcontinued : continued (digitValue b) s = n := by
      simpa [continued] using hvalue
    have hgather := gather_eq (hcontinued.trans_le hn)
    rw [hcontinued] at hgather
    simp [magnitude, hzero, hb, takeWhile_digits hs hends, dropWhile_digits hs hends, hgather]

end Number

open Number

theorem writeInt_of_nonneg {i : Int} (hi : 0 ≤ i) :
    Text.Utf8.encode (writeInt i) = decimal i.toNat := by
  rw [writeInt, Int.toString_eq_repr, Int.repr_eq_if, if_pos hi, Nat.repr_eq_ofList_toDigits,
    String.toList_ofList, decimal]

theorem writeInt_of_neg {i : Int} (hi : i < 0) :
    Text.Utf8.encode (writeInt i) = 0x2D :: decimal (-i).toNat := by
  rw [writeInt, Int.toString_eq_repr, Int.repr_eq_if, if_neg (by omega),
    Nat.repr_eq_ofList_toDigits, String.toList_append, String.toList_ofList,
    Text.Utf8.encode_append, String.toList_ofList, decimal]
  rfl

theorem Number.read_writeInt {i : Int} (hlow : -(2 ^ 63) ≤ i) (hhigh : i < 2 ^ 63) {t : Bytes}
    (ht : Closes t) : Number.read (Text.Utf8.encode (writeInt i) ++ t) = .ok (.integer i, t) := by
  have hmax : Number.maxSignificand = 2 ^ 64 - 1 := rfl
  by_cases hi : 0 ≤ i
  · rw [writeInt_of_nonneg hi]
    have hread := magnitude_decimal (n := i.toNat) (by omega) false ht
    rw [afterInteger_of_closes ht (by simp), if_neg (by simp), Int.toNat_of_nonneg hi] at hread
    obtain ⟨b, r, hr, hb⟩ := (whole_decimal i.toNat).head
    have hminus : b ≠ 0x2D := by
      rintro rfl
      exact absurd hb (by decide)
    rw [hr] at hread ⊢
    simpa [Number.read, hminus] using hread
  · have hbound : 0 < (-i).toNat ∧ (-i).toNat ≤ Nat.pow 2 63 := by
      rw [show Nat.pow 2 63 = 2 ^ 63 from rfl]
      omega
    have hvalue : -(((-i).toNat : Nat) : Int) = i := by omega
    rw [writeInt_of_neg (by omega), List.cons_append, Number.read,
      magnitude_decimal (by omega) true ht, afterInteger_of_closes ht (fun _ => hbound), if_pos rfl,
      hvalue]

theorem head_writeInt (i : Int) :
    ∃ b r, Text.Utf8.encode (writeInt i) = b :: r ∧ (b = 0x2D ∨ isDigit b) := by
  by_cases hi : 0 ≤ i
  · rw [writeInt_of_nonneg hi]
    obtain ⟨b, r, hr, hb⟩ := (whole_decimal i.toNat).head
    exact ⟨b, r, hr, .inr hb⟩
  · rw [writeInt_of_neg (by omega)]
    exact ⟨_, _, rfl, .inl rfl⟩

theorem isSpace_of_sign_or_digit {b : UInt8} (hb : b = 0x2D ∨ isDigit b) : isSpace b = false := by
  rw [Bool.eq_false_iff]
  intro hs
  simp only [isSpace, Bool.or_eq_true, beq_iff_eq] at hs
  rcases hs with ((rfl | rfl) | rfl) | rfl <;> revert hb <;> decide

theorem reads_writeInt (n : Int64) : Reads readInt64 (Text.Utf8.encode (writeInt n.toInt)) n := by
  intro a t ha ht
  have hlow := n.le_toInt
  have hhigh := n.toInt_lt
  have hread := Number.read_writeInt hlow hhigh ht
  obtain ⟨b, r, hr, hb⟩ := head_writeInt n.toInt
  rw [hr, List.cons_append] at hread ⊢
  have hfits : n.toInt < Nat.pow 2 63 := hhigh
  have hb' : (decide (b = 0x2D) || isDigit b) = true := by simpa using hb
  rw [readInt64, skipBlank_append ha (isSpace_of_sign_or_digit hb)]
  simp only [if_pos hb', hread, if_pos hfits, Int64.ofInt_toInt]

end OrderDesk.Json
