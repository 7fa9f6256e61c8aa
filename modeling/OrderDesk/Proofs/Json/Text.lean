import OrderDesk.Json.Text
import OrderDesk.Proofs.Json.Reader

/-!
# Strings read back

Between its quotes a string may be spelled in many ways: each character as it is or as an escape, in
hexadecimal digits of either case, and beyond `U+FFFF` also as a pair of surrogates (`Spells`). Each
of them is read as the string and passed over as a whole (`Quoted.behind`), and the written form is
one of them (`quoted_write`).
-/

namespace OrderDesk.Json.Text

open OrderDesk.Text (hexByte? hexDigit?)
open OrderDesk.Text.Utf8 (encode)

/-- The letters after a backslash, with the characters they stand for. -/
def shortEscapes : List (UInt8 × Char) :=
  [(0x22, '"'), (0x5C, '\\'), (0x2F, '/'), (0x62, '\x08'), (0x66, '\x0c'), (0x6E, '\n'),
    (0x72, '\r'), (0x74, '\t')]

/-- Four hexadecimal digits stand for a code unit. -/
inductive CodeUnit : Bytes → Nat → Prop
  | mk {a b c d : UInt8} {x y z w : Nat} (ha : hexByte? a = some x) (hb : hexByte? b = some y)
      (hc : hexByte? c = some z) (hd : hexByte? d = some w) :
      CodeUnit [a, b, c, d] (((x * 16 + y) * 16 + z) * 16 + w)

/-- What may stand between the quotes of a string with these characters. -/
inductive Spells : Bytes → List Char → Prop
  | nil : Spells [] []
  | plain {c : Char} {s : Bytes} {cs : List Char} (hc : 0x20 ≤ c.toNat) (hquote : c ≠ '"')
      (hslash : c ≠ '\\') (hs : Spells s cs) : Spells (String.utf8EncodeChar c ++ s) (c :: cs)
  | short {b : UInt8} {c : Char} {s : Bytes} {cs : List Char} (hb : (b, c) ∈ shortEscapes)
      (hs : Spells s cs) : Spells (0x5C :: b :: s) (c :: cs)
  | unit {u s : Bytes} {n : Nat} {cs : List Char} (hu : CodeUnit u n)
      (hn : n < 0xD800 ∨ 0xDFFF < n) (hs : Spells s cs) :
      Spells (0x5C :: 0x75 :: (u ++ s)) (.ofNat n :: cs)
  | pair {u t s : Bytes} {m n : Nat} {cs : List Char} (hu : CodeUnit u m)
      (hm : 0xD800 ≤ m ∧ m ≤ 0xDBFF) (ht : CodeUnit t n) (hn : 0xDC00 ≤ n ∧ n ≤ 0xDFFF)
      (hs : Spells s cs) :
      Spells (0x5C :: 0x75 :: (u ++ 0x5C :: 0x75 :: (t ++ s)))
        (.ofNat (0x10000 + (m - 0xD800) * 0x400 + (n - 0xDC00)) :: cs)

/-- A string with its quotes. -/
inductive Quoted : Bytes → List Char → Prop
  | mk {s : Bytes} {cs : List Char} (hs : Spells s cs) : Quoted (0x22 :: (s ++ [0x22])) cs

variable {s t u : Bytes} {c : Char} {cs : List Char} {fuel m n : Nat}

/-! ## Reading -/

/-- A byte that stands for itself in a string. -/
def Literal (b : UInt8) : Prop := b ≠ 0x22 ∧ b ≠ 0x5C ∧ ¬ b < 0x20

theorem literal_utf8EncodeChar (hc : 0x20 ≤ c.toNat) (hquote : c ≠ '"') (hslash : c ≠ '\\') :
    ∀ b ∈ String.utf8EncodeChar c, Literal b := by
  have hbyte : ∀ b : UInt8, 0x20 ≤ b.toNat → b.toNat ≠ 0x22 → b.toNat ≠ 0x5C → Literal b := by
    intro b hspace hquote hslash
    simp only [Literal, UInt8.lt_iff_toNat_lt, ← UInt8.toNat_inj, ne_eq, UInt8.reduceToNat]
    omega
  intro b hb
  by_cases hascii : c.toNat < 0x80
  · have hval : (UInt8.ofNat c.toNat).toNat = c.toNat :=
      UInt8.toNat_ofNat_of_lt' (show _ < 256 by omega)
    rw [OrderDesk.Text.Utf8.utf8EncodeChar_ascii hascii, List.mem_singleton] at hb
    subst hb
    apply hbyte <;> rw [hval]
    · exact hc
    · exact fun h => hquote (Char.toNat_inj.1 h)
    · exact fun h => hslash (Char.toNat_inj.1 h)
  · have hb := OrderDesk.Text.Utf8.le_of_mem_utf8EncodeChar (by omega) b hb
    exact hbyte b (by omega) (by omega) (by omega)

theorem contents_literal {more rest : Bytes} (hs : ∀ b ∈ s, Literal b)
    (h : contents fuel t = .ok (more, rest)) :
    contents (fuel + s.length) (s ++ t) = .ok (s ++ more, rest) := by
  induction s with
  | nil => exact h
  | cons b s ih =>
    rw [List.forall_mem_cons] at hs
    obtain ⟨⟨hquote, hslash, hspace⟩, hs⟩ := hs
    simp only [List.length_cons, List.cons_append, ← Nat.add_assoc, contents, if_neg hquote,
      if_neg hslash, if_neg hspace, ih hs]

theorem contents_escape {bytes more rest : Bytes} (hs : escape s = .ok (bytes, t))
    (h : contents fuel t = .ok (more, rest)) :
    contents (fuel + 1) (0x5C :: s) = .ok (bytes ++ more, rest) := by
  rw [contents, if_neg (by decide), if_pos rfl, hs]
  simp only [h]

theorem CodeUnit.codeUnit (hu : CodeUnit u n) (s : Bytes) : codeUnit (u ++ s) = .ok (n, s) := by
  obtain ⟨ha, hb, hc, hd⟩ := hu
  simp [Text.codeUnit, ha, hb, hc, hd]

theorem escape_short {b : UInt8} (hb : (b, c) ∈ shortEscapes) (s : Bytes) :
    escape (b :: s) = .ok (String.utf8EncodeChar c, s) := by
  have hall : ∀ x ∈ shortEscapes, x.1 ≠ 0x75 ∧
      (simpleEscape x.1).map ([·]) = some (String.utf8EncodeChar x.2) := by decide
  obtain ⟨hu, hsimple⟩ := hall _ hb
  obtain ⟨v, hv, hbytes⟩ := Option.map_eq_some_iff.1 hsimple
  simp only [escape, if_neg hu, hv, hbytes]

theorem escape_unit (hu : CodeUnit u n) (hn : n < 0xD800 ∨ 0xDFFF < n) (s : Bytes) :
    escape (0x75 :: (u ++ s)) = .ok (String.utf8EncodeChar (.ofNat n), s) := by
  have hlow : isLowSurrogate n = false := by simp [isLowSurrogate]; omega
  have hhigh : isHighSurrogate n = false := by simp [isHighSurrogate]; omega
  simp [escape, unicodeEscape, hu.codeUnit, hlow, hhigh]

theorem escape_pair (hu : CodeUnit u m) (hm : 0xD800 ≤ m ∧ m ≤ 0xDBFF) (ht : CodeUnit t n)
    (hn : 0xDC00 ≤ n ∧ n ≤ 0xDFFF) (s : Bytes) :
    escape (0x75 :: (u ++ 0x5C :: 0x75 :: (t ++ s))) =
      .ok (String.utf8EncodeChar (.ofNat (0x10000 + (m - 0xD800) * 0x400 + (n - 0xDC00))), s) := by
  have hlow : isLowSurrogate m = false := by simp [isLowSurrogate]; omega
  have hhigh : isHighSurrogate m = true := by simp [isHighSurrogate]; omega
  have hnext : isLowSurrogate n = true := by simp [isLowSurrogate]; omega
  simp [escape, unicodeEscape, hu.codeUnit, hlow, hhigh, lowSurrogate, ht.codeUnit, hnext]

/-- The bytes up to the closing quote are those of the characters. Every round of the reader takes
one byte at least. -/
theorem Spells.contents (hs : Spells s cs) (t : Bytes) (hfuel : s.length < fuel) :
    contents fuel (s ++ 0x22 :: t) = .ok (encode cs, t) := by
  induction hs generalizing fuel with
  | nil =>
    cases fuel with
    | zero => simp at hfuel
    | succ fuel => rfl
  | @plain c s cs hc hquote hslash hs ih =>
    rw [List.length_append] at hfuel
    obtain ⟨fuel, rfl⟩ := Nat.exists_eq_add_of_le' (show (String.utf8EncodeChar c).length ≤ fuel by
      omega)
    rw [List.append_assoc]
    exact contents_literal (literal_utf8EncodeChar hc hquote hslash) (ih (by omega))
  | short hb hs ih =>
    simp only [List.length_cons] at hfuel
    obtain ⟨fuel, rfl⟩ := Nat.exists_eq_add_of_lt hfuel
    exact contents_escape (escape_short hb _) (ih (by omega))
  | unit hu hn hs ih =>
    simp only [List.length_cons, List.length_append] at hfuel
    obtain ⟨fuel, rfl⟩ := Nat.exists_eq_add_of_lt hfuel
    simp only [List.cons_append, List.append_assoc]
    exact contents_escape (escape_unit hu hn _) (ih (by omega))
  | pair hu hm ht hn hs ih =>
    simp only [List.length_cons, List.length_append] at hfuel
    obtain ⟨fuel, rfl⟩ := Nat.exists_eq_add_of_lt hfuel
    simp only [List.cons_append, List.append_assoc]
    exact contents_escape (escape_pair hu hm ht hn _) (ih (by omega))

/-- A string is read from behind its opening quote. -/
theorem Spells.read (hs : Spells s cs) (t : Bytes) :
    Text.read (s ++ 0x22 :: t) = .ok (.ofList cs, t) := by
  have hlength : s.length < (s ++ 0x22 :: t).length := by simp
  simp only [Text.read, hs.contents t hlength, OrderDesk.Text.Utf8.decode?_encode]

/-! ## Passing over -/

theorem skipContents_literal (hs : ∀ b ∈ s, Literal b) (t : Bytes) :
    skipContents (fuel + s.length) (s ++ t) = skipContents fuel t := by
  induction s with
  | nil => rfl
  | cons b s ih =>
    rw [List.forall_mem_cons] at hs
    obtain ⟨⟨hquote, hslash, hspace⟩, hs⟩ := hs
    simp only [List.length_cons, List.cons_append, ← Nat.add_assoc, skipContents, if_neg hquote,
      if_neg hslash, if_neg hspace, ih hs]

theorem skipContents_escape (hs : skipEscape s = .ok t) :
    skipContents (fuel + 1) (0x5C :: s) = skipContents fuel t := by
  rw [skipContents, if_neg (by decide), if_pos rfl, hs]

theorem skipEscape_short {b : UInt8} (hb : (b, c) ∈ shortEscapes) (s : Bytes) :
    skipEscape (b :: s) = .ok s := by
  have hall : ∀ x ∈ shortEscapes, x.1 ≠ 0x75 ∧ (simpleEscape x.1).isSome := by decide
  obtain ⟨hu, hsimple⟩ := hall _ hb
  rw [skipEscape, if_neg hu, if_pos hsimple]

theorem skipEscape_unit (hu : CodeUnit u n) (s : Bytes) :
    skipEscape (0x75 :: (u ++ s)) = .ok s := by
  simp [skipEscape, hu.codeUnit]

theorem Spells.skipContents (hs : Spells s cs) (t : Bytes) (hfuel : s.length < fuel) :
    skipContents fuel (s ++ 0x22 :: t) = .ok t := by
  induction hs generalizing fuel with
  | nil =>
    cases fuel with
    | zero => simp at hfuel
    | succ fuel => rfl
  | @plain c s cs hc hquote hslash hs ih =>
    rw [List.length_append] at hfuel
    obtain ⟨fuel, rfl⟩ := Nat.exists_eq_add_of_le' (show (String.utf8EncodeChar c).length ≤ fuel by
      omega)
    rw [List.append_assoc, skipContents_literal (literal_utf8EncodeChar hc hquote hslash),
      ih (by omega)]
  | short hb hs ih =>
    simp only [List.length_cons] at hfuel
    obtain ⟨fuel, rfl⟩ := Nat.exists_eq_add_of_lt hfuel
    exact (skipContents_escape (skipEscape_short hb _)).trans (ih (by omega))
  | unit hu hn hs ih =>
    simp only [List.length_cons, List.length_append] at hfuel
    obtain ⟨fuel, rfl⟩ := Nat.exists_eq_add_of_lt hfuel
    simp only [List.cons_append, List.append_assoc]
    exact (skipContents_escape (skipEscape_unit hu _)).trans (ih (by omega))
  | pair hu hm ht hn hs ih =>
    simp only [List.length_cons, List.length_append] at hfuel
    obtain ⟨fuel, rfl⟩ : ∃ k, fuel = k + 1 + 1 := ⟨fuel - 2, by omega⟩
    simp only [List.cons_append, List.append_assoc]
    rw [skipContents_escape (skipEscape_unit hu _), skipContents_escape (skipEscape_unit ht _),
      ih (by omega)]

theorem Spells.skip (hs : Spells s cs) (t : Bytes) : Text.skip (s ++ 0x22 :: t) = .ok t := by
  have hlength : s.length < (s ++ 0x22 :: t).length := by simp
  exact hs.skipContents t hlength

/-- A string is read, and it is passed over, from behind its opening quote. -/
theorem Quoted.behind (hs : Quoted s cs) : ∃ r, s = 0x22 :: r ∧
    ∀ t, Text.read (r ++ t) = .ok (.ofList cs, t) ∧ Text.skip (r ++ t) = .ok t := by
  obtain ⟨hs⟩ := hs
  refine ⟨_, rfl, fun t => ?_⟩
  simp only [List.append_assoc, List.singleton_append]
  exact ⟨hs.read t, hs.skip t⟩

/-! ## Writing -/

theorem codeUnit_control (hn : n < 0x20) :
    CodeUnit (encode ['0', '0', hexChar (n / 16), hexChar (n % 16)]) n := by
  have hdigit : ∀ k < 16, (hexChar k).toNat < 0x80 ∧
      hexByte? (.ofNat (hexChar k).toNat) = some k := by decide
  obtain ⟨hhigh, hx⟩ := hdigit (n / 16) (by omega)
  obtain ⟨hlow, hy⟩ := hdigit (n % 16) (by omega)
  have hvalue : ((0 * 16 + 0) * 16 + n / 16) * 16 + n % 16 = n := by omega
  have hunit := CodeUnit.mk (a := 0x30) (b := 0x30) (x := 0) (y := 0) rfl rfl hx hy
  rw [hvalue] at hunit
  rw [OrderDesk.Text.Utf8.encode_ascii]
  · exact hunit
  · simp [hhigh, hlow]

/-- A written character, in front of other ones. -/
theorem Spells.writeChar (hs : Spells s cs) (c : Char) :
    Spells (encode (writeChar c) ++ s) (c :: cs) := by
  unfold Text.writeChar
  split
  · exact .short (b := 0x22) (by decide) hs
  · exact .short (b := 0x5C) (by decide) hs
  · exact .short (b := 0x6E) (by decide) hs
  · exact .short (b := 0x72) (by decide) hs
  · exact .short (b := 0x74) (by decide) hs
  · exact .short (b := 0x62) (by decide) hs
  · exact .short (b := 0x66) (by decide) hs
  · rename_i hquote hslash _ _ _ _ _
    split
    · rename_i hcontrol
      have hunit := Spells.unit (codeUnit_control hcontrol) (.inl (by omega)) hs
      rw [Char.ofNat_toNat] at hunit
      exact hunit
    · rename_i hcontrol
      have hplain := Spells.plain (c := c) (by omega) hquote hslash hs
      simpa using hplain

theorem spells_flatMap (cs : List Char) : Spells (encode (cs.flatMap Text.writeChar)) cs := by
  induction cs with
  | nil => exact .nil
  | cons c cs ih =>
    rw [List.flatMap_cons, OrderDesk.Text.Utf8.encode_append]
    exact ih.writeChar c

/-- The written form of a string. -/
theorem quoted_write (s : String) : Quoted (encode (write s)) s.toList := by
  have hbytes : encode (write s) =
      0x22 :: (encode (s.toList.flatMap Text.writeChar) ++ [0x22]) := by
    simp only [write, List.cons_append, OrderDesk.Text.Utf8.encode_cons,
      OrderDesk.Text.Utf8.encode_append]
    rfl
  rw [hbytes]
  exact .mk (spells_flatMap s.toList)

end OrderDesk.Json.Text
