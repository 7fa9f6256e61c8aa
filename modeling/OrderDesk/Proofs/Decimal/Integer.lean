import OrderDesk.Decimal.Integer

/-! # Decimal numerals

* `numeral?`: the integer that a decimal numeral denotes;
* `readSigned_eq_ok_iff`: an integer is read from its numerals, if it is in the range;
* `numeral?_digits`: what a numeral is written with. -/

namespace OrderDesk.Decimal

/-- The number that decimal digits denote, of which there must be one. -/
def natural? (s : List Char) : Option Nat :=
  if s ≠ [] ∧ s.all Char.isDigit then some (Nat.ofDigitChars 10 s 0) else none

/-- The integer that a decimal numeral denotes, which may have a sign. -/
def numeral? : List Char → Option Int
  | '-' :: s => (natural? s).map fun n : Nat => -(n : Int)
  | '+' :: s => (natural? s).map Int.ofNat
  | s => (natural? s).map Int.ofNat

variable {s : List Char} {c : Char} {max n m : Nat} {e : IntegerError}

theorem digitValue?_of_isDigit (hc : c.isDigit) :
    digitValue? c = some (c.toNat - '0'.toNat) := by
  obtain ⟨hlow, hhigh⟩ := Char.isDigit_iff_toNat.1 hc
  exact if_pos ⟨hlow, hhigh⟩

theorem digitValue?_eq_none (hc : c.isDigit = false) : digitValue? c = none := by
  refine if_neg fun h => ?_
  have : c.isDigit = true := Char.isDigit_iff_toNat.2 h
  simp [hc] at this

theorem le_ofDigitChars (n : Nat) (s : List Char) : n ≤ Nat.ofDigitChars 10 s n := by
  induction s generalizing n with
  | nil => exact Nat.le_refl n
  | cons c s ih =>
    rw [Nat.ofDigitChars_cons]
    exact Nat.le_trans (by omega) (ih _)

/-- Since the number only grows, it stays in the range if it ends there. -/
theorem readDigits_eq_ok_iff (hn : n ≤ max) : readDigits max e n s = .ok m ↔
    s.all Char.isDigit ∧ Nat.ofDigitChars 10 s n = m ∧ m ≤ max := by
  induction s generalizing n with
  | nil =>
    simp only [readDigits, Except.ok.injEq, List.all_nil, true_and, Nat.ofDigitChars_nil]
    exact ⟨fun h => ⟨h, h ▸ hn⟩, fun h => h.1⟩
  | cons c s ih =>
    rw [readDigits]
    cases hc : c.isDigit with
    | false => simp [digitValue?_eq_none hc, hc]
    | true =>
      rw [digitValue?_of_isDigit hc, Nat.ofDigitChars_cons, Nat.mul_comm 10 n]
      by_cases hle : n * 10 + (c.toNat - '0'.toNat) ≤ max
      · simp only [if_pos hle, ih hle, List.all_cons, hc, Bool.true_and]
      · have hgrows := le_ofDigitChars (n * 10 + (c.toNat - '0'.toNat)) s
        simp only [if_neg hle, reduceCtorEq, false_iff]
        rintro ⟨-, rfl, hm⟩
        omega

theorem natural?_eq_some_iff : natural? s = some m ↔
    s ≠ [] ∧ s.all Char.isDigit ∧ Nat.ofDigitChars 10 s 0 = m := by
  simp only [natural?, Option.ite_none_right_eq_some, Option.some.injEq, and_assoc]

theorem readDigits_zero (hs : s ≠ []) : readDigits max e 0 s = .ok m ↔
    natural? s = some m ∧ m ≤ max := by
  rw [readDigits_eq_ok_iff (Nat.zero_le max), natural?_eq_some_iff]
  simp only [ne_eq, hs, not_false_eq_true, true_and, and_assoc]

/-- Digits are read for an integer if it is in the range, where `f` says what they stand for. -/
theorem map_readDigits {f : Nat → Int} {low high i : Int} (hs : s ≠ [])
    (hf : ∀ m, m ≤ max ↔ low ≤ f m ∧ f m ≤ high) : (readDigits max e 0 s).map f = .ok i ↔
    (natural? s).map f = some i ∧ low ≤ i ∧ i ≤ high := by
  have hok : (readDigits max e 0 s).map f = .ok i ↔
      ∃ m, readDigits max e 0 s = .ok m ∧ f m = i := by
    cases readDigits max e 0 s <;> simp [Except.map]
  simp only [hok, readDigits_zero hs, Option.map_eq_some_iff]
  constructor
  · rintro ⟨m, ⟨hm, hle⟩, rfl⟩
    exact ⟨⟨m, hm, rfl⟩, (hf m).1 hle⟩
  · rintro ⟨⟨m, hm, rfl⟩, hrange⟩
    exact ⟨m, ⟨hm, (hf m).2 hrange⟩, rfl⟩

theorem numeral?_of_unsigned (hminus : ∀ t, s ≠ '-' :: t) (hplus : ∀ t, s ≠ '+' :: t) :
    numeral? s = (natural? s).map Int.ofNat := by
  unfold numeral?
  split
  · next t => exact absurd rfl (hminus t)
  · next t => exact absurd rfl (hplus t)
  · rfl

theorem readSigned_eq_ok_iff {i : Int} : readSigned max s = .ok i ↔
    numeral? s = some i ∧ -(max + 1 : Int) ≤ i ∧ i ≤ max := by
  have hpositive : ∀ m : Nat, m ≤ max ↔ -(max + 1 : Int) ≤ Int.ofNat m ∧ Int.ofNat m ≤ max :=
    fun m => by rw [Int.ofNat_eq_natCast]; omega
  unfold readSigned
  split
  · simp [numeral?, natural?]
  · simp [numeral?, natural?]
  · simp [numeral?, natural?]
  · next s hne => exact map_readDigits (fun h => hne (h ▸ rfl)) hpositive
  · next s hne =>
    -- the definition turns the number into an integer first, and then takes its negative
    have hcast : Except.map (fun n : Int => -n)
        ((readDigits (max + 1) .tooSmall 0 s).bind fun m => .ok (m : Int)) =
        (readDigits (max + 1) .tooSmall 0 s).map fun m : Nat => -(m : Int) := by
      cases readDigits (max + 1) .tooSmall 0 s <;> rfl
    have hnegative : ∀ m : Nat, m ≤ max + 1 ↔ -(max + 1 : Int) ≤ -(m : Int) ∧ -(m : Int) ≤ max :=
      fun m => by omega
    exact hcast ▸ map_readDigits (fun h => hne (h ▸ rfl)) hnegative
  · next s hne _ _ hplus hminus =>
    rw [numeral?_of_unsigned (fun t h => hminus t h) fun t h => hplus t h]
    exact map_readDigits hne hpositive

theorem isDigit_of_natural? (h : natural? s = some n) (hc : c ∈ s) : c.isDigit :=
  List.all_eq_true.1 (natural?_eq_some_iff.1 h).2.1 c hc

theorem exists_digit_of_natural? (h : natural? s = some n) : ∃ c ∈ s, c.isDigit := by
  obtain ⟨c, t, rfl⟩ := List.exists_cons_of_ne_nil (natural?_eq_some_iff.1 h).1
  exact ⟨c, List.mem_cons_self, isDigit_of_natural? h List.mem_cons_self⟩

theorem numeral?_digits {i : Int} (h : numeral? s = some i) :
    (∃ c ∈ s, c.isDigit) ∧ ∀ c ∈ s, c.isDigit ∨ c = '-' ∨ c = '+' := by
  unfold numeral? at h
  split at h <;> obtain ⟨n, hn, -⟩ := Option.map_eq_some_iff.1 h <;>
    obtain ⟨d, hd, hdigit⟩ := exists_digit_of_natural? hn
  · exact ⟨⟨d, List.mem_cons_of_mem _ hd, hdigit⟩, by
      simpa using fun c hc => .inl (isDigit_of_natural? hn hc)⟩
  · exact ⟨⟨d, List.mem_cons_of_mem _ hd, hdigit⟩, by
      simpa using fun c hc => .inl (isDigit_of_natural? hn hc)⟩
  · exact ⟨⟨d, hd, hdigit⟩, fun c hc => .inl (isDigit_of_natural? hn hc)⟩

end OrderDesk.Decimal
