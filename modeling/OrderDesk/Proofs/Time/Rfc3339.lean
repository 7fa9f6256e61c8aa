import Mathlib.Algebra.Group.Nat.Defs
import Mathlib.Data.List.TakeWhile
import OrderDesk.Time.Rfc3339

/-!
# Dates read back

Every date that the reader gives exists (`Timestamp.valid_of_ofText`): an offset from UTC is whole
minutes, so a leap second stays at the end of a minute. A date that exists is read back from its
written form (`Timestamp.ofText_toText`).
-/

namespace OrderDesk

/-! ## Neighbouring days -/

namespace Date

theorem monthLength_bounds (year : Int) (month : Nat) :
    28 ≤ monthLength year month ∧ monthLength year month ≤ 31 := by
  grind [monthLength]

theorem Valid.next? {d d' : Date} (h : d.Valid) (hd : d.next? = some d') : d'.Valid := by
  obtain ⟨hlow, hhigh, hmonth, hmonth', hday, hday'⟩ := h
  unfold Date.next? at hd
  split at hd
  · cases hd
    refine ⟨hlow, hhigh, hmonth, hmonth', ?_, ?_⟩ <;> dsimp only <;> omega
  split at hd
  · cases hd
    have hlength := monthLength_bounds d.year (d.month + 1)
    refine ⟨hlow, hhigh, ?_, ?_, ?_, ?_⟩ <;> dsimp only <;> omega
  split at hd
  · cases hd
    have hlength := monthLength_bounds (d.year + 1) 1
    refine ⟨?_, ?_, ?_, ?_, ?_, ?_⟩ <;> dsimp only <;> omega
  · cases hd

theorem Valid.prev? {d d' : Date} (h : d.Valid) (hd : d.prev? = some d') : d'.Valid := by
  obtain ⟨hlow, hhigh, hmonth, hmonth', hday, hday'⟩ := h
  unfold Date.prev? at hd
  split at hd
  · cases hd
    refine ⟨hlow, hhigh, hmonth, hmonth', ?_, ?_⟩ <;> dsimp only <;> omega
  split at hd
  · cases hd
    have hlength := monthLength_bounds d.year (d.month - 1)
    refine ⟨hlow, hhigh, ?_, ?_, ?_, ?_⟩ <;> dsimp only <;> omega
  split at hd
  · cases hd
    have hlength : monthLength (d.year - 1) 12 = 31 := rfl
    refine ⟨?_, ?_, ?_, ?_, ?_, ?_⟩ <;> dsimp only <;> omega
  · cases hd

end Date

theorem Date.valid_of_ofYmd? {year : Int} {month day : Nat} {d : Date}
    (h : Date.ofYmd? year month day = some d) : d.Valid := by
  unfold Date.ofYmd? at h
  split at h
  · cases h
    assumption
  · cases h

/-- A shift by whole minutes keeps the second of the minute. -/
theorem Timestamp.Valid.shift? {t t' : Timestamp} {offset : Int} (h : t.Valid)
    (hminutes : 60 ∣ offset) (hday : offset.natAbs < secondsPerDay)
    (ht : t.shift? offset = some t') : t'.Valid := by
  obtain ⟨hdate, hsecond, hnanos⟩ := h
  have hdays : secondsPerDay = 86400 := rfl
  have hkeep : ∀ second : Int, 0 ≤ second → 60 ∣ second - t.second →
      t.nanos < Nat.pow 10 9 ∨ t.nanos < 2 * Nat.pow 10 9 ∧ second.toNat % 60 = 59 := by
    intro second hpos hdvd
    refine hnanos.imp_right fun h => ⟨h.1, ?_⟩
    have hlast := h.2
    omega
  unfold Timestamp.shift? at ht
  dsimp only at ht
  split at ht
  · obtain ⟨date, hprev, rfl⟩ := Option.map_eq_some_iff.1 ht
    refine ⟨hdate.prev? hprev, ?_, ?_⟩
    · dsimp only
      omega
    · apply hkeep <;> omega
  split at ht
  · cases ht
    refine ⟨hdate, ?_, ?_⟩
    · dsimp only
      omega
    · apply hkeep <;> omega
  · obtain ⟨date, hnext, rfl⟩ := Option.map_eq_some_iff.1 ht
    refine ⟨hdate.next? hnext, ?_, ?_⟩
    · dsimp only
      omega
    · apply hkeep <;> omega

theorem Timestamp.shift?_zero {t : Timestamp} (h : t.second < secondsPerDay) :
    t.shift? 0 = some t := by
  have hpos : ¬ (t.second : Int) < 0 := by omega
  have hday : (t.second : Int) < secondsPerDay := by omega
  simp only [Timestamp.shift?, Int.add_zero, if_neg hpos, if_pos hday, Int.toNat_natCast]

namespace Rfc3339

variable {α β : Type} {s t : List Char} {n : Nat}

theorem bind_eq_ok {r : Except DateError α} {f : α → Except DateError β} {b : β} :
    (r >>= f) = .ok b ↔ ∃ a, r = .ok a ∧ f a = .ok b := by
  cases r with
  | error e => simp [bind, Except.bind]
  | ok a => simp [bind, Except.bind]

theorem ok_bind (a : α) (f : α → Except DateError β) : (.ok a >>= f) = f a := rfl

/-! ## What the reader gives -/

theorem le_of_field {low high : Nat} (h : field low high s = .ok (n, t)) : low ≤ n ∧ n ≤ high := by
  obtain ⟨⟨m, r⟩, -, h⟩ := bind_eq_ok.1 h
  dsimp only at h
  split at h
  · cases h
    assumption
  · cases h

theorem minutes_of_offsetBody {i : Int} (h : offsetBody s = .ok (i, t)) : 60 ∣ i := by
  obtain ⟨⟨hours, r⟩, -, h⟩ := bind_eq_ok.1 h
  obtain ⟨⟨minutes, r'⟩, -, h⟩ := bind_eq_ok.1 h
  dsimp only at h
  split at h
  · cases h
    omega
  · cases h

theorem minutes_of_offset {i : Int} (h : offset s = .ok (i, t)) : 60 ∣ i := by
  unfold offset at h
  split at h
  · cases h
  split at h
  · cases h
    simp
  split at h
  · exact minutes_of_offsetBody h
  split at h
  · obtain ⟨⟨n, r⟩, hbody, h⟩ := bind_eq_ok.1 h
    cases h
    exact Int.dvd_neg.2 (minutes_of_offsetBody hbody)
  · split at h
    · cases h
      simp
    · cases h

/-- The number that digits continue `n` to. -/
def continued (n : Nat) (s : List Char) : Nat :=
  s.foldl (fun acc c => acc * 10 + (c.toNat - '0'.toNat)) n

theorem continued_lt (hs : ∀ c ∈ s, c.isDigit) (n : Nat) :
    continued n s < (n + 1) * 10 ^ s.length := by
  induction s generalizing n with
  | nil => simp [continued]
  | cons c s ih =>
    rw [List.forall_mem_cons] at hs
    have hdigit : c.toNat ≤ '0'.toNat + 9 := (Char.isDigit_iff_toNat.1 hs.1).2
    calc continued n (c :: s)
        < (n * 10 + (c.toNat - '0'.toNat) + 1) * 10 ^ s.length := ih hs.2 _
      _ ≤ ((n + 1) * 10) * 10 ^ s.length := Nat.mul_le_mul_right _ (by omega)
      _ = (n + 1) * 10 ^ (c :: s).length := by
        rw [List.length_cons, Nat.pow_succ', Nat.mul_assoc]

/-- The digits that a number is read from: those at the head, as many as it may have. -/
def leadingDigits (limit : Option Nat) (s : List Char) : List Char :=
  match limit with
  | some n => (s.takeWhile Char.isDigit).take n
  | none => s.takeWhile Char.isDigit

theorem leadingDigits_prefix (limit : Option Nat) (s : List Char) :
    leadingDigits limit s <+: s.takeWhile Char.isDigit := by
  cases limit with
  | none => exact List.prefix_rfl
  | some k => exact List.take_prefix k _

theorem number_eq (limit : Option Nat) (s : List Char) : number limit s =
    match s, leadingDigits limit s with
    | [], _ => .error .tooShort
    | _, [] => .error .invalid
    | _, ds => if continued 0 ds < Nat.pow 2 63 then .ok (continued 0 ds, s.drop ds.length)
      else .error .outOfRange := by
  unfold number
  rfl

theorem number_eq_ok {limit : Option Nat} (h : number limit s = .ok (n, t)) :
    ∃ ds, s = ds ++ t ∧ (∀ c ∈ ds, c.isDigit) ∧ (∀ k, limit = some k → ds.length ≤ k) ∧
      n = continued 0 ds := by
  have hleading := leadingDigits_prefix limit s
  have hvalue : n = continued 0 (leadingDigits limit s) ∧
      t = s.drop (leadingDigits limit s).length := by
    rw [number_eq] at h
    split at h
    · cases h
    · cases h
    split at h
    · cases h
      exact ⟨rfl, rfl⟩
    · cases h
  refine ⟨leadingDigits limit s, ?_, ?_, ?_, hvalue.1⟩
  · rw [hvalue.2]
    exact (List.prefix_iff_eq_append.1 (hleading.trans (List.takeWhile_prefix _))).symm
  · intro c hc
    exact List.mem_takeWhile_imp (hleading.subset hc)
  · rintro k rfl
    exact List.length_take_le ..

theorem lt_of_fraction (h : fraction s = .ok (n, t)) : n < Nat.pow 10 9 := by
  unfold fraction at h
  split at h
  · obtain ⟨⟨m, rest⟩, hnumber, h⟩ := bind_eq_ok.1 h
    cases h
    obtain ⟨ds, rfl, hdigits, hlimit, rfl⟩ := number_eq_ok hnumber
    have hlength := hlimit 9 rfl
    have hlt := continued_lt hdigits 0
    have hread : (ds ++ rest).length - rest.length = ds.length := by simp
    rw [hread]
    calc continued 0 ds * 10 ^ (9 - ds.length)
        < 10 ^ ds.length * 10 ^ (9 - ds.length) :=
          Nat.mul_lt_mul_of_pos_right (by omega) (Nat.pow_pos (by decide))
      _ = 10 ^ 9 := by rw [← Nat.pow_add, Nat.add_sub_cancel' hlength]
  · cases h
    decide

end Rfc3339

theorem Timestamp.valid_of_ofText {s : String} {t : Timestamp} (h : Timestamp.ofText s = .ok t) :
    t.Valid := by
  unfold Timestamp.ofText Rfc3339.read at h
  obtain ⟨⟨year, s⟩, -, h⟩ := Rfc3339.bind_eq_ok.1 h
  obtain ⟨s, -, h⟩ := Rfc3339.bind_eq_ok.1 h
  obtain ⟨⟨month, s⟩, -, h⟩ := Rfc3339.bind_eq_ok.1 h
  obtain ⟨s, -, h⟩ := Rfc3339.bind_eq_ok.1 h
  obtain ⟨⟨day, s⟩, -, h⟩ := Rfc3339.bind_eq_ok.1 h
  obtain ⟨s, -, h⟩ := Rfc3339.bind_eq_ok.1 h
  obtain ⟨⟨hour, s⟩, hhour, h⟩ := Rfc3339.bind_eq_ok.1 h
  obtain ⟨s, -, h⟩ := Rfc3339.bind_eq_ok.1 h
  obtain ⟨⟨minute, s⟩, hminute, h⟩ := Rfc3339.bind_eq_ok.1 h
  obtain ⟨s, -, h⟩ := Rfc3339.bind_eq_ok.1 h
  obtain ⟨⟨second, s⟩, hsecond, h⟩ := Rfc3339.bind_eq_ok.1 h
  obtain ⟨⟨nanos, s⟩, hnanos, h⟩ := Rfc3339.bind_eq_ok.1 h
  obtain ⟨⟨offset, s⟩, hoffset, h⟩ := Rfc3339.bind_eq_ok.1 h
  have hhour := (Rfc3339.le_of_field hhour).2
  have hminute := (Rfc3339.le_of_field hminute).2
  have hsecond := (Rfc3339.le_of_field hsecond).2
  have hnanos := Rfc3339.lt_of_fraction hnanos
  have hoffset := Rfc3339.minutes_of_offset hoffset
  dsimp only at h
  split at h
  · cases h
  split at h
  · cases h
  rename_i date hdate
  split at h
  · cases h
  split at h
  · cases h
  rename_i hday t' hshift
  cases h
  have hthere : Timestamp.Valid {
      date
      second := hour * 3600 + minute * 60 + (if second = 60 then 59 else second)
      nanos := nanos + if second = 60 then Nat.pow 10 9 else 0 } := by
    have hdays : secondsPerDay = 86400 := rfl
    refine ⟨Date.valid_of_ofYmd? hdate, ?_, ?_⟩ <;> dsimp only <;> split <;> omega
  exact hthere.shift? (Int.dvd_neg.2 hoffset) (by omega) hshift

namespace Rfc3339

variable {s t : List Char} {n low high width : Nat}

/-! ## Written numbers -/

theorem continued_eq_ofDigitChars (n : Nat) (s : List Char) :
    continued n s = Nat.ofDigitChars 10 s n := by
  rw [Nat.ofDigitChars_eq_foldl, continued]
  simp only [Nat.mul_comm]

theorem isDigit_of_mem_padded {c : Char} (hc : c ∈ padded width n) : c.isDigit := by
  rcases List.mem_append.1 hc with hc | hc
  · rw [List.eq_of_mem_replicate hc]
    decide
  · exact Nat.isDigit_of_mem_toDigits (by decide) (by decide) hc

theorem continued_padded (width n : Nat) : continued 0 (padded width n) = n := by
  rw [continued_eq_ofDigitChars, padded, Nat.ofDigitChars_append, Nat.ofDigitChars_replicate_zero,
    Nat.mul_zero, Nat.ofDigitChars_ten_toDigits]

theorem length_padded (hwidth : 0 < width) (hn : n < 10 ^ width) :
    (padded width n).length = width := by
  have hlength := (Nat.length_toDigits_le_iff (b := 10) (by decide) hwidth).2 hn
  simp only [padded, List.length_append, List.length_replicate]
  omega

theorem padded_ne_nil (width n : Nat) : padded width n ≠ [] := by
  simp [padded, Nat.toDigits_ne_nil]

/-- Digits end before this rest. -/
def EndsDigits (s : List Char) : Prop := ∀ c ∈ s.head?, c.isDigit = false

/-- A written number is read to its end, if as many digits may be read as it has. -/
theorem number_padded {limit : Option Nat}
    (hlimit : ∀ k, limit = some k → (padded width n).length ≤ k)
    (hn : n < Nat.pow 2 63) (hs : EndsDigits s) :
    number limit (padded width n ++ s) = .ok (n, s) := by
  have htake : (padded width n ++ s).takeWhile Char.isDigit = padded width n := by
    rw [List.takeWhile_append_of_pos fun c hc => isDigit_of_mem_padded hc]
    cases s with
    | nil => simp
    | cons c s => simp [hs c rfl]
  have hleading : leadingDigits limit (padded width n ++ s) = padded width n := by
    cases limit with
    | none => exact htake
    | some k => rw [leadingDigits, htake, List.take_of_length_le (hlimit k rfl)]
  have hvalue := continued_padded width n
  have hne := padded_ne_nil width n
  rw [number_eq, hleading]
  generalize padded width n = ds at hvalue hne
  cases ds with
  | nil => exact absurd rfl hne
  | cons d ds => simp [hvalue, hn]

theorem trimStart_cons {c : Char} (hc : Text.isBlank c = false) (s : List Char) :
    Text.trimStart (c :: s) = c :: s := by
  rw [Text.trimStart, List.dropWhile_cons_of_neg (by simp [hc])]

theorem isBlank_of_isDigit {c : Char} (hc : c.isDigit) : Text.isBlank c = false := by
  obtain ⟨hlow, hhigh⟩ := Char.isDigit_iff_toNat.1 hc
  simp only [Char.reduceToNat] at hlow hhigh
  rw [Bool.eq_false_iff]
  simp only [Text.isBlank, ne_eq, Bool.or_eq_true, Bool.and_eq_true, beq_iff_eq, decide_eq_true_eq]
  omega

theorem exists_padded (width n : Nat) :
    ∃ d ds, padded width n = d :: ds ∧ d.isDigit := by
  cases h : padded width n with
  | nil => exact absurd h (padded_ne_nil width n)
  | cons d ds =>
    have hd : d ∈ padded width n := by
      rw [h]
      exact List.mem_cons_self
    exact ⟨d, ds, rfl, isDigit_of_mem_padded hd⟩

theorem trimStart_padded (width n : Nat) (s : List Char) :
    Text.trimStart (padded width n ++ s) = padded width n ++ s := by
  obtain ⟨d, ds, h, hd⟩ := exists_padded width n
  rw [h, List.cons_append, trimStart_cons (isBlank_of_isDigit hd)]

theorem field_padded (hn : n < 100) (hlow : low ≤ n) (hhigh : n ≤ high) (hs : EndsDigits s) :
    field low high (padded 2 n ++ s) = .ok (n, s) := by
  have hnumber : number (some 2) (padded 2 n ++ s) = .ok (n, s) := by
    apply number_padded _ _ hs
    · rintro k ⟨⟩
      rw [length_padded (by decide) hn]
    · exact Nat.lt_trans hn (by decide)
  rw [field, trimStart_padded, hnumber]
  exact if_pos ⟨hlow, hhigh⟩

theorem separator_cons {c : Char} (hc : Text.isBlank c = false) (s : List Char) :
    separator c (c :: s) = .ok s := by
  rw [separator, trimStart_cons hc]
  exact if_pos rfl

theorem year_of_digit {d : Char} (hd : d.isDigit)
    (h : number (some 4) (d :: s) = .ok (n, t)) (hn : n < 2 ^ 31) : year (d :: s) = .ok (n, t) := by
  have hminus : d ≠ '-' := by
    rintro rfl
    exact absurd hd (by decide)
  have hplus : d ≠ '+' := by
    rintro rfl
    exact absurd hd (by decide)
  have hrange : -(Nat.pow 2 31 : Int) ≤ n ∧ (n : Int) < Nat.pow 2 31 := by
    simp only [Nat.pow_eq]
    omega
  rw [year, trimStart_cons (isBlank_of_isDigit hd)]
  split
  · rename_i hd'
    exact absurd (List.cons.inj hd').1 hminus
  · rename_i hd'
    exact absurd (List.cons.inj hd').1 hplus
  · simp only [h, bind, Except.bind, pure, Except.pure, if_pos hrange]

theorem year_of_minus (h : number none s = .ok (n, t)) (hn : n ≤ 2 ^ 31) :
    year ('-' :: s) = .ok (-n, t) := by
  have hrange : -(Nat.pow 2 31 : Int) ≤ -n ∧ -(n : Int) < Nat.pow 2 31 := by
    simp only [Nat.pow_eq]
    omega
  rw [year, trimStart_cons (by decide)]
  simp only [h, bind, Except.bind, pure, Except.pure, if_pos hrange]

theorem year_of_plus (h : number none s = .ok (n, t)) (hn : n < 2 ^ 31) :
    year ('+' :: s) = .ok (n, t) := by
  have hrange : -(Nat.pow 2 31 : Int) ≤ n ∧ (n : Int) < Nat.pow 2 31 := by
    simp only [Nat.pow_eq]
    omega
  rw [year, trimStart_cons (by decide)]
  simp only [h, bind, Except.bind, pure, Except.pure, if_pos hrange]

theorem year_writeYear {y : Int} (hlow : Date.minYear ≤ y) (hhigh : y ≤ Date.maxYear)
    (hs : EndsDigits s) : year (writeYear y ++ s) = .ok (y, s) := by
  have hmin : Date.minYear = -262143 := rfl
  have hmax : Date.maxYear = 262142 := rfl
  have hnumber : number none (padded 4 y.natAbs ++ s) = .ok (y.natAbs, s) := by
    apply number_padded (by simp) _ hs
    simp only [Nat.pow_eq]
    omega
  unfold writeYear
  split
  · have habs : y.toNat = y.natAbs := by omega
    have hplain : number (some 4) (padded 4 y.natAbs ++ s) = .ok (y.natAbs, s) := by
      apply number_padded _ _ hs
      · rintro k ⟨⟩
        rw [length_padded (by decide) (by omega)]
      · simp only [Nat.pow_eq]
        omega
    obtain ⟨d, ds, h, hd⟩ := exists_padded 4 y.natAbs
    rw [h, List.cons_append] at hplain
    rw [habs, h, List.cons_append, year_of_digit hd hplain (by omega)]
    congr 2
    omega
  split
  · rw [List.cons_append, year_of_minus hnumber (by omega)]
    congr 2
    omega
  · rw [List.cons_append, year_of_plus hnumber (by omega)]
    congr 2
    omega

theorem endsDigits_cons {c : Char} (hc : c.isDigit = false) (s : List Char) :
    EndsDigits (c :: s) := by
  intro d hd
  cases hd
  exact hc

theorem endsDigits_writeFraction (n : Nat) (s : List Char) :
    EndsDigits (writeFraction n ++ 'Z' :: s) := by
  unfold writeFraction
  split
  · exact endsDigits_cons (by decide) _
  split
  · exact endsDigits_cons (by decide) _
  split
  · exact endsDigits_cons (by decide) _
  · exact endsDigits_cons (by decide) _

/-- The written digits of a fraction, of which there are `digits`, count as many nanoseconds as they
stand for. -/
theorem fraction_padded {digits : Nat} (hpos : 0 < digits) (hdigits : digits ≤ 9)
    (hn : n < 10 ^ digits) (s : List Char) :
    fraction ('.' :: (padded digits n ++ 'Z' :: s)) =
      .ok (n * Nat.pow 10 (9 - digits), 'Z' :: s) := by
  have hlength := length_padded hpos hn
  have hnumber : number (some 9) (padded digits n ++ 'Z' :: s) = .ok (n, 'Z' :: s) := by
    apply number_padded
    · rintro k ⟨⟩
      omega
    · calc n < 10 ^ digits := hn
        _ ≤ 10 ^ 9 := Nat.pow_le_pow_right (by decide) hdigits
        _ < Nat.pow 2 63 := by decide
    · exact endsDigits_cons (by decide) s
  have hread : (padded digits n ++ 'Z' :: s).length - ('Z' :: s).length = digits := by
    rw [List.length_append, Nat.add_sub_cancel, hlength]
  simp only [fraction, hnumber, bind, Except.bind, hread]
  rfl

theorem fraction_writeFraction (hn : n < Nat.pow 10 9) (s : List Char) :
    fraction (writeFraction n ++ 'Z' :: s) = .ok (n, 'Z' :: s) := by
  simp only [Nat.pow_eq] at hn
  unfold writeFraction
  split
  · subst n
    rfl
  split
  · rw [List.cons_append, fraction_padded (by decide) (by decide) (by omega)]
    congr 2
    simp only [Nat.pow_eq]
    omega
  split
  · rw [List.cons_append, fraction_padded (by decide) (by decide) (by omega)]
    congr 2
    simp only [Nat.pow_eq]
    omega
  · rw [List.cons_append, fraction_padded (by decide) (by decide) (by omega)]
    congr 2
    simp

/-! ## The whole text -/

theorem joint_cons (s : List Char) : joint ('T' :: s) = .ok s := rfl

theorem offset_cons (s : List Char) : offset ('Z' :: s) = .ok (0, s) := by
  rw [offset, trimStart_cons (by decide)]
  rfl

/-- Written parts that are in range are read one after the other. -/
theorem read_parts {year : Int} {month day hour minute second nanos : Nat} {date : Date}
    (hdate : Date.ofYmd? year month day = some date) (hhour : hour ≤ 23) (hminute : minute ≤ 59)
    (hsecond : second ≤ 60) (hnanos : nanos < Nat.pow 10 9) :
    read (writeYear year ++ '-' :: (padded 2 month ++ '-' :: (padded 2 day ++
      'T' :: (padded 2 hour ++ ':' :: (padded 2 minute ++ ':' :: (padded 2 second ++
      (writeFraction nanos ++ ['Z']))))))) = .ok {
        date
        second := hour * 3600 + minute * 60 + (if second = 60 then 59 else second)
        nanos := nanos + if second = 60 then Nat.pow 10 9 else 0 } := by
  obtain ⟨hlow, hhigh, hmonth, hmonth', hday, hday'⟩ : Date.Valid ⟨year, month, day⟩ := by
    unfold Date.ofYmd? at hdate
    split at hdate
    · assumption
    · cases hdate
  have hlength := Date.monthLength_bounds year month
  dsimp only at hlow hhigh hmonth hmonth' hday hday'
  have hdash : ∀ s, EndsDigits ('-' :: s) := endsDigits_cons (by decide)
  have hcolon : ∀ s, EndsDigits (':' :: s) := endsDigits_cons (by decide)
  rw [read, year_writeYear hlow hhigh (hdash _), ok_bind]
  dsimp only
  rw [separator_cons (by decide), ok_bind, field_padded (by omega) hmonth hmonth' (hdash _),
    ok_bind]
  dsimp only
  rw [separator_cons (by decide), ok_bind,
    field_padded (by omega) hday (by omega) (endsDigits_cons (by decide) _), ok_bind]
  dsimp only
  rw [joint_cons, ok_bind, field_padded (by omega) (Nat.zero_le _) hhour (hcolon _), ok_bind]
  dsimp only
  rw [separator_cons (by decide), ok_bind,
    field_padded (by omega) (Nat.zero_le _) hminute (hcolon _), ok_bind]
  dsimp only
  rw [separator_cons (by decide), ok_bind,
    field_padded (by omega) (Nat.zero_le _) hsecond (endsDigits_writeFraction _ _), ok_bind]
  dsimp only
  rw [fraction_writeFraction hnanos, ok_bind]
  dsimp only
  rw [offset_cons, ok_bind]
  dsimp only
  rw [if_neg (by simp [Text.trimStart]), hdate]
  dsimp only
  rw [if_neg (by decide), Int.neg_zero, Timestamp.shift?_zero]
  have hdays : Timestamp.secondsPerDay = 86400 := rfl
  dsimp only
  split <;> omega

end Rfc3339

theorem Timestamp.Valid.ofText_toText {t : Timestamp} (h : t.Valid) :
    Timestamp.ofText t.toText = .ok t := by
  obtain ⟨hdate, hsecond, hnanos⟩ := h
  have hdays : secondsPerDay = 86400 := rfl
  have hymd : Date.ofYmd? t.date.year t.date.month t.date.day = some t.date := if_pos hdate
  rw [Timestamp.ofText, Timestamp.toText, String.toList_ofList, Rfc3339.write]
  simp only [List.append_assoc, List.cons_append]
  rw [Rfc3339.read_parts hymd]
  · congr 1
    obtain ⟨date, second, nanos⟩ := t
    dsimp only at hsecond hnanos ⊢
    congr 1
    · split <;> split <;> omega
    · split <;> split <;> omega
  · omega
  · omega
  · split <;> omega
  · split <;> omega

end OrderDesk
