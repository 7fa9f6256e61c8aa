import Mathlib.Data.List.TakeWhile
import OrderDesk.Http.Route
import OrderDesk.Proofs.Text.Utf8

/-!
# Ids in paths

The bytes of an id are written into a path as the characters that a segment may hold, or as a
percent sign and two hexadecimal digits (`PercentEncodes`). Read back they are the bytes
(`PercentEncodes.percentDecode`), and the path that has them behind `/order/` names the order
(`PercentEncodes.route`).
-/

namespace OrderDesk.Http

/-! ## Writing bytes -/

/-- A character that stands for itself in a segment of a path. -/
def isPathChar (c : Char) : Bool :=
  let n := c.toNat
  n == 0x21 || n == 0x24 || (0x26 ≤ n && n ≤ 0x2E) || (0x30 ≤ n && n ≤ 0x3B) || n == 0x3D ||
    (0x40 ≤ n && n ≤ 0x5A) || n == 0x5F || (0x61 ≤ n && n ≤ 0x7A) || n == 0x7E

/-- The text of a segment stands for these bytes. Which of them are escaped is left open, and so is
the case of the digits. -/
inductive PercentEncodes : List Char → Bytes → Prop
  | nil : PercentEncodes [] []
  | plain {c : Char} {s : List Char} {bs : Bytes} (hc : isPathChar c) (hs : PercentEncodes s bs) :
      PercentEncodes (c :: s) (.ofNat c.toNat :: bs)
  | escaped {h l : Char} {x y : Nat} {s : List Char} {bs : Bytes}
      (hh : Text.hexDigit? h = some x) (hl : Text.hexDigit? l = some y)
      (hs : PercentEncodes s bs) :
      PercentEncodes ('%' :: h :: l :: s) (.ofNat (x * 16 + y) :: bs)

variable {c : Char} {x : Nat} {s : List Char} {bs : Bytes}

theorem isPathChar_iff : isPathChar c ↔
    c.toNat = 0x21 ∨ c.toNat = 0x24 ∨ 0x26 ≤ c.toNat ∧ c.toNat ≤ 0x2E ∨
      0x30 ≤ c.toNat ∧ c.toNat ≤ 0x3B ∨ c.toNat = 0x3D ∨ 0x40 ≤ c.toNat ∧ c.toNat ≤ 0x5A ∨
      c.toNat = 0x5F ∨ 0x61 ≤ c.toNat ∧ c.toNat ≤ 0x7A ∨ c.toNat = 0x7E := by
  simp only [isPathChar, Bool.or_eq_true, Bool.and_eq_true, beq_iff_eq, decide_eq_true_eq, or_assoc]

/-- Neither what ends a segment nor the percent sign is among these characters. -/
theorem isPathChar_ascii (hc : isPathChar c) :
    c.toNat < 0x80 ∧ c ≠ '%' ∧ c ≠ '/' ∧ c ≠ '?' ∧ c ≠ '#' := by
  rw [isPathChar_iff] at hc
  refine ⟨by omega, ?_, ?_, ?_, ?_⟩ <;> rintro rfl <;> simp at hc

theorem isPathChar_of_hexDigit? (hc : Text.hexDigit? c = some x) : isPathChar c := by
  have hle : ∀ a b : Char, a ≤ b ↔ a.toNat ≤ b.toNat := fun _ _ => Iff.rfl
  simp only [Text.hexDigit?, hle, Char.reduceToNat] at hc
  rw [isPathChar_iff]
  grind

theorem hexByte?_ofNat (hc : c.toNat < 0x80) :
    Text.hexByte? (.ofNat c.toNat) = Text.hexDigit? c := by
  have hn : (UInt8.ofNat c.toNat).toNat = c.toNat :=
    UInt8.toNat_ofNat_of_lt' (show _ < 256 by omega)
  rw [Text.hexByte?, hn, Char.ofNat_toNat]

theorem PercentEncodes.chars (h : PercentEncodes s bs) :
    ∀ c ∈ s, c.toNat < 0x80 ∧ c ≠ '/' ∧ c ≠ '?' ∧ c ≠ '#' := by
  have hplain : ∀ {c}, isPathChar c → c.toNat < 0x80 ∧ c ≠ '/' ∧ c ≠ '?' ∧ c ≠ '#' := fun hc =>
    ⟨(isPathChar_ascii hc).1, (isPathChar_ascii hc).2.2⟩
  induction h with
  | nil => exact nofun
  | plain hc hs ih => exact List.forall_mem_cons.2 ⟨hplain hc, ih⟩
  | escaped hh hl hs ih =>
    simp only [List.forall_mem_cons]
    exact ⟨by decide, hplain (isPathChar_of_hexDigit? hh), hplain (isPathChar_of_hexDigit? hl), ih⟩

/-! ## Reading them back -/

theorem escaped?_of_ne {b : UInt8} (hb : b ≠ 0x25) (rest : Bytes) : escaped? b rest = none := by
  rcases rest with _ | ⟨h, _ | ⟨l, rest⟩⟩
  · rfl
  · rfl
  · simp only [escaped?, if_neg hb]
    split <;> rfl

theorem PercentEncodes.percentDecode (h : PercentEncodes s bs) : percentDecode s = bs := by
  have hascii : ∀ c ∈ s, c.toNat < 0x80 := fun c hc => (h.chars c hc).1
  rw [Http.percentDecode, Text.Utf8.encode_ascii hascii]
  induction h with
  | nil => rfl
  | @plain c s bs hc hs ih =>
    have hne : UInt8.ofNat c.toNat ≠ 0x25 := by
      rw [isPathChar_iff] at hc
      rw [ne_eq, ← UInt8.toNat_inj, UInt8.toNat_ofNat']
      simp
      omega
    rw [List.forall_mem_cons] at hascii
    rw [List.map_cons, unescapeAfter, escaped?_of_ne hne]
    exact congrArg _ (ih hascii.2)
  | escaped hh hl hs ih =>
    simp only [List.forall_mem_cons] at hascii
    obtain ⟨-, hh', hl', hascii⟩ := hascii
    simp only [List.map_cons, unescapeAfter, escaped?, hexByte?_ofNat hh', hexByte?_ofNat hl', hh,
      hl]
    simp [ih hascii]

/-! ## The route -/

theorem Target.cut_of_not_mem (h : c ∉ s) : Target.cut c s = (s, []) := by
  have hall : ∀ d ∈ s, (d != c) = true := fun d hd => by
    rw [bne_iff_ne]
    rintro rfl
    exact h hd
  rw [Target.cut, List.takeWhile_eq_self_iff.2 hall, List.dropWhile_eq_nil_iff.2 hall]
  rfl

theorem Target.pieces_of_not_mem (h : c ∉ s) : Target.pieces c s = [s] := by
  induction s with
  | nil => rfl
  | cons d s ih =>
    rw [List.mem_cons, not_or] at h
    rw [Target.pieces, if_neg (Ne.symm h.1), ih h.2]

/-- A path without a query and a fragment is the whole target. -/
theorem Target.ofText_path (hs : ∀ c ∈ s, c ≠ '?' ∧ c ≠ '#') :
    Target.ofText (.ofList ('/' :: s)) = { path := .ofList ('/' :: s), query := "" } := by
  have hhash : '#' ∉ '/' :: s := by
    simp only [List.mem_cons, not_or]
    exact ⟨by decide, fun h => (hs _ h).2 rfl⟩
  have hquestion : '?' ∉ '/' :: s := by
    simp only [List.mem_cons, not_or]
    exact ⟨by decide, fun h => (hs _ h).1 rfl⟩
  simp [Target.ofText, Target.cut_of_not_mem hhash, Target.cut_of_not_mem hquestion]

theorem PercentEncodes.route (h : PercentEncodes s bs) (hne : bs ≠ []) :
    Route.ofTarget? (.ofText ("/order/" ++ .ofList s)) = some (.order s) := by
  have hchars := h.chars
  have hs : (String.ofList s).isEmpty = false := by
    cases h with
    | nil => exact absurd rfl hne
    | plain => simp
    | escaped => simp
  have htarget : Target.ofText ("/order/" ++ .ofList s) =
      { path := .ofList ('/' :: ("order/".toList ++ s)), query := "" } := by
    have htext : "/order/" ++ String.ofList s = .ofList ('/' :: ("order/".toList ++ s)) := by
      rw [show '/' :: ("order/".toList ++ s) = "/order/".toList ++ s by simp, String.ofList_append,
        String.ofList_toList]
    have hword : ∀ c ∈ "order/".toList, c ≠ '?' ∧ c ≠ '#' := by simp
    rw [htext]
    apply Target.ofText_path
    intro c hc
    rcases List.mem_append.1 hc with hc | hc
    · exact hword c hc
    · exact (hchars c hc).2.2
  have hsegments : (Target.ofText ("/order/" ++ .ofList s)).segments.map String.ofList =
      ["order", .ofList s] := by
    have hpieces := Target.pieces_of_not_mem fun hc => (hchars '/' hc).2.1 rfl
    rw [htarget, Target.segments]
    simp [Target.pieces, hpieces]
  have hstart : (Target.ofText ("/order/" ++ .ofList s)).path.startsWith "/" := by
    rw [htarget, String.startsWith_string_iff]
    simp
  rw [Route.ofTarget?, if_pos hstart, hsegments]
  simp [hs]

end OrderDesk.Http
