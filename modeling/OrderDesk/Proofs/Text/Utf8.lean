import Mathlib.Tactic.SplitIfs
import OrderDesk.Text.Utf8

/-!
# UTF-8 read back

The bytes of a text are the text again when they are read (`decode?_encode`): the first byte of a
character tells how many are to come (`lead_ofNat`), each further one adds six bits
(`scanFrom_fitting`), and the limits on the second byte are those of the characters there are.
-/

namespace OrderDesk.Text.Utf8

variable {n x : Nat} {p : Pending}

/-! ## Texts -/

@[simp]
theorem encode_nil : encode [] = [] := rfl

@[simp]
theorem encode_cons (c : Char) (s : List Char) :
    encode (c :: s) = String.utf8EncodeChar c ++ encode s := rfl

@[simp]
theorem encode_append (s t : List Char) : encode (s ++ t) = encode s ++ encode t :=
  List.flatMap_append

/-- A character of ASCII is one byte. -/
theorem utf8EncodeChar_ascii {c : Char} (hc : c.toNat < 0x80) :
    String.utf8EncodeChar c = [.ofNat c.toNat] := by
  rw [String.utf8EncodeChar.eq_1, if_pos (by change c.toNat ≤ 127; omega)]
  rfl

theorem encode_ascii {s : List Char} (hs : ∀ c ∈ s, c.toNat < 0x80) :
    encode s = s.map fun c => .ofNat c.toNat := by
  induction s with
  | nil => rfl
  | cons c s ih =>
    rw [List.forall_mem_cons] at hs
    rw [encode_cons, utf8EncodeChar_ascii hs.1, ih hs.2]
    rfl

/-- All bytes of a character that is not of ASCII lie beyond it. -/
theorem le_of_mem_utf8EncodeChar {c : Char} (hc : 0x80 ≤ c.toNat) :
    ∀ b ∈ String.utf8EncodeChar c, 0x80 ≤ b.toNat := by
  have hbyte : ∀ k, 0x80 ≤ k → k < 256 → 0x80 ≤ (UInt8.ofNat k).toNat := by
    intro k hlow hhigh
    rwa [UInt8.toNat_ofNat_of_lt' hhigh]
  rw [String.utf8EncodeChar.eq_1, show c.val.toNat = c.toNat from rfl, if_neg (by omega)]
  intro b hb
  split_ifs at hb
  · simp only [List.mem_cons, List.not_mem_nil, or_false] at hb
    rcases hb with rfl | rfl <;> exact hbyte _ (by omega) (by omega)
  · simp only [List.mem_cons, List.not_mem_nil, or_false] at hb
    rcases hb with rfl | rfl | rfl <;> exact hbyte _ (by omega) (by omega)
  · simp only [List.mem_cons, List.not_mem_nil, or_false] at hb
    rcases hb with rfl | rfl | rfl | rfl <;> exact hbyte _ (by omega) (by omega)

/-! ## Bytes -/

/-- What a byte begins, by its number. -/
theorem lead_ofNat (h : n < 256) : lead (.ofNat n) =
    if n < 0x80 then .single (Char.ofNat n)
    else if n < 0xC2 then .illFormed
    else if n < 0xE0 then .several ⟨n - 0xC0, 0, 0x80, 0xBF⟩
    else if n = 0xE0 then .several ⟨0, 1, 0xA0, 0xBF⟩
    else if n = 0xED then .several ⟨0xD, 1, 0x80, 0x9F⟩
    else if n < 0xF0 then .several ⟨n - 0xE0, 1, 0x80, 0xBF⟩
    else if n = 0xF0 then .several ⟨0, 2, 0x90, 0xBF⟩
    else if n < 0xF4 then .several ⟨n - 0xF0, 2, 0x80, 0xBF⟩
    else if n = 0xF4 then .several ⟨4, 2, 0x80, 0x8F⟩
    else .illFormed := by
  have hn : (UInt8.ofNat n).toNat = n := UInt8.toNat_ofNat_of_lt' h
  simp [lead, UInt8.lt_iff_toNat_lt, ← UInt8.toNat_inj, hn]

theorem scanFrom_several {b : UInt8} (h : lead b = .several p) (bs : Bytes) :
    scanFrom none (b :: bs) = scanFrom (some p) bs := by
  rw [scanFrom, h]

/-- What a fitting continuation byte does: it adds its six bits. -/
theorem scanFrom_fitting {x : Nat} (hx : x < 64) (hlow : p.low.toNat ≤ x + 128)
    (hhigh : x + 128 ≤ p.high.toNat) (bs : Bytes) :
    scanFrom (some p) (.ofNat (x + 128) :: bs) =
      match p.more with
      | 0 => some (Char.ofNat (p.code * 64 + x)) :: scanFrom none bs
      | more + 1 => scanFrom (some ⟨p.code * 64 + x, more, 0x80, 0xBF⟩) bs := by
  have hbyte : (UInt8.ofNat (x + 128)).toNat = x + 128 :=
    UInt8.toNat_ofNat_of_lt' (show _ < 256 by omega)
  have hfits : p.low ≤ .ofNat (x + 128) ∧ .ofNat (x + 128) ≤ p.high := by
    rw [UInt8.le_iff_toNat_le, UInt8.le_iff_toNat_le, hbyte]
    exact ⟨hlow, hhigh⟩
  rw [scanFrom, if_pos hfits, Pending.push, hbyte, Nat.add_sub_cancel]
  cases p.more <;> rfl

/-! ## Characters -/

theorem toNat_scalar (c : Char) : c.toNat < 0xD800 ∨ 0xDFFF < c.toNat ∧ c.toNat < 0x110000 :=
  c.valid

theorem lead_two (h : 0x80 ≤ n) (hn : n ≤ 0x7FF) :
    lead (.ofNat (n / 64 % 32 + 192)) = .several ⟨n / 64, 0, 0x80, 0xBF⟩ := by
  rw [lead_ofNat (by omega)]
  grind

/-- No character has an overlong form, and none is a surrogate: these are the limits on the second
byte of three. -/
theorem lead_three (h : 0x800 ≤ n) (hn : n ≤ 0xFFFF) (hs : n < 0xD800 ∨ 0xDFFF < n) :
    ∃ low high : UInt8, lead (.ofNat (n / 4096 % 16 + 224)) = .several ⟨n / 4096, 1, low, high⟩ ∧
      low.toNat ≤ n / 64 % 64 + 128 ∧ n / 64 % 64 + 128 ≤ high.toNat := by
  rw [lead_ofNat (by omega)]
  by_cases hzero : n / 4096 = 0
  · exact ⟨0xA0, 0xBF, by simp [hzero], by simp; omega, by simp; omega⟩
  by_cases hsurr : n / 4096 = 13
  · exact ⟨0x80, 0x9F, by simp [hsurr], by simp, by simp; omega⟩
  · exact ⟨0x80, 0xBF, by grind, by simp, by simp; omega⟩

/-- The limits on the second byte of four: no overlong form, and nothing beyond `U+10FFFF`. -/
theorem lead_four (h : 0x10000 ≤ n) (hn : n < 0x110000) :
    ∃ low high : UInt8, lead (.ofNat (n / 262144 % 8 + 240)) =
        .several ⟨n / 262144, 2, low, high⟩ ∧
      low.toNat ≤ n / 4096 % 64 + 128 ∧ n / 4096 % 64 + 128 ≤ high.toNat := by
  rw [lead_ofNat (by omega)]
  by_cases hzero : n / 262144 = 0
  · exact ⟨0x90, 0xBF, by simp [hzero], by simp; omega, by simp; omega⟩
  by_cases hfour : n / 262144 = 4
  · exact ⟨0x80, 0x8F, by simp [hfour], by simp, by simp; omega⟩
  · exact ⟨0x80, 0xBF, by grind, by simp, by simp; omega⟩

/-- A character is read as a whole, whatever comes after it. -/
@[simp]
theorem scanFrom_utf8EncodeChar (c : Char) (bs : Bytes) :
    scanFrom none (String.utf8EncodeChar c ++ bs) = some c :: scanFrom none bs := by
  have hscalar := toNat_scalar c
  have hchar : Char.ofNat c.toNat = c := Char.ofNat_toNat c
  rw [String.utf8EncodeChar.eq_1, show c.val.toNat = c.toNat from rfl]
  generalize c.toNat = n at hscalar hchar ⊢
  split_ifs with hone htwo hthree
  · rw [List.singleton_append, scanFrom, lead_ofNat (by omega), if_pos (by omega), hchar]
  · have hcode : n / 64 * 64 + n % 64 = n := by omega
    rw [List.cons_append, List.singleton_append, scanFrom_several (lead_two (by omega) htwo),
      scanFrom_fitting (by omega) (by simp) (by simp; omega)]
    simp only [hcode, hchar]
  · have hcode : (n / 4096 * 64 + n / 64 % 64) * 64 + n % 64 = n := by omega
    obtain ⟨low, high, hlead, hlow, hhigh⟩ := lead_three (by omega) hthree (by omega)
    rw [List.cons_append, List.cons_append, List.singleton_append, scanFrom_several hlead,
      scanFrom_fitting (by omega) hlow hhigh]
    dsimp only
    rw [scanFrom_fitting (by omega) (by simp) (by simp; omega)]
    simp only [hcode, hchar]
  · have hcode : ((n / 262144 * 64 + n / 4096 % 64) * 64 + n / 64 % 64) * 64 + n % 64 = n := by
      omega
    obtain ⟨low, high, hlead, hlow, hhigh⟩ := lead_four (n := n) (by omega) (by omega)
    rw [List.cons_append, List.cons_append, List.cons_append, List.singleton_append,
      scanFrom_several hlead, scanFrom_fitting (by omega) hlow hhigh]
    dsimp only
    rw [scanFrom_fitting (by omega) (by simp) (by simp; omega)]
    dsimp only
    rw [scanFrom_fitting (by omega) (by simp) (by simp; omega)]
    simp only [hcode, hchar]

theorem scan_encode (s : List Char) : scan (encode s) = s.map some := by
  rw [scan]
  induction s with
  | nil => rfl
  | cons c s ih => rw [encode_cons, scanFrom_utf8EncodeChar, ih, List.map_cons]

/-- The bytes of a text are read as the text. -/
theorem decode?_encode (s : List Char) : decode? (encode s) = some s := by
  rw [decode?, scan_encode]
  induction s with
  | nil => rfl
  | cons c s ih => simp [ih]

theorem encode_injective : Function.Injective encode := fun s t h => by
  have hread := decode?_encode s
  rw [h, decode?_encode] at hread
  exact (Option.some.inj hread).symm

end OrderDesk.Text.Utf8
