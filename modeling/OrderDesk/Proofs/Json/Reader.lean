import Mathlib.Data.List.TakeWhile
import OrderDesk.Json.Reader
import OrderDesk.Proofs.Text.Utf8

/-!
# Tokens and the white space between them

What a reader gives for a text is stated wherever the text may stand: white space may come before it
(`Blank`), and behind it comes the end, white space, or what parts or closes (`Closes`). A text that
reads as a value in all these places `Reads` as it.
-/

namespace OrderDesk.Json

variable {α β : Type} {a s t : Bytes} {b : UInt8}

/-- White space between two tokens. -/
def Blank (s : Bytes) : Prop := ∀ b ∈ s, isSpace b

/-- A value may end before this rest. -/
def Closes (s : Bytes) : Prop := ∀ b ∈ s.head?, isSpace b ∨ b = 0x2C ∨ b = 0x5D ∨ b = 0x7D

/-- The reader takes the text for this value, wherever it stands. -/
def Reads (read : Reader α) (s : Bytes) (v : α) : Prop :=
  ∀ ⦃a t : Bytes⦄, Blank a → Closes t → read (a ++ (s ++ t)) = .ok (v, t)

/-! ## White space -/

theorem blank_nil : Blank [] := by simp [Blank]

theorem skipBlank_of_blank (ha : Blank a) : skipBlank a = [] := by
  simp only [skipBlank, List.dropWhile_eq_nil_iff]
  exact ha

/-- The next token begins with the first byte that is no white space. -/
theorem skipBlank_append (ha : Blank a) (hb : isSpace b = false) (s : Bytes) :
    skipBlank (a ++ b :: s) = b :: s := by
  induction a with
  | nil => simp [skipBlank, hb]
  | cons c a ih =>
    simp only [Blank, List.forall_mem_cons] at ha
    simpa [skipBlank, ha.1] using ih ha.2

/-! ## What may follow a value -/

theorem closes_nil : Closes [] := by simp [Closes]

theorem closes_comma (s : Bytes) : Closes (0x2C :: s) := by simp [Closes]

theorem closes_bracket (s : Bytes) : Closes (0x5D :: s) := by simp [Closes]

theorem closes_brace (s : Bytes) : Closes (0x7D :: s) := by simp [Closes]

theorem Blank.closes (ha : Blank a) (hs : Closes s) : Closes (a ++ s) := by
  cases a with
  | nil => exact hs
  | cons b a =>
    intro c hc
    cases hc
    exact .inl (ha b List.mem_cons_self)

/-- What may follow a value goes on with none of the bytes that numbers are made of. -/
theorem Closes.head (h : Closes (b :: s)) : isDigit b = false ∧ b ≠ 0x2E ∧ b ≠ 0x65 ∧ b ≠ 0x45 := by
  have hb : isSpace b ∨ b = 0x2C ∨ b = 0x5D ∨ b = 0x7D := h b rfl
  simp only [isSpace, Bool.or_eq_true, beq_iff_eq] at hb
  rcases hb with (((rfl | rfl) | rfl) | rfl) | rfl | rfl | rfl <;> decide

/-! ## Readers -/

theorem Reads.map {read : Reader α} {v : α} (h : Reads read s v) (f : α → β) :
    Reads (fun s => (read s).map fun (v, s) => (f v, s)) s (f v) := by
  intro a t ha ht
  simp only [h ha ht]
  rfl

/-- A whole text is one value with white space around it. -/
theorem Reads.parse {read : Reader α} {v : α} (h : Reads read s v) (ha : Blank a) (ht : Blank t) :
    parse read (a ++ (s ++ t)) = .ok v := by
  have hclose : Closes t := by simpa using ht.closes closes_nil
  simp only [Json.parse, h ha hclose, skipBlank_of_blank ht]

end OrderDesk.Json
