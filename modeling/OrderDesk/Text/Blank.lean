/-! # Blank characters

The 25 characters with the `White_Space` property, and texts cut at both ends by them. The
zero-width space `U+200B`, the byte order mark `U+FEFF` and the Mongolian vowel separator
`U+180E` are not blank.

* `isBlank`: the property itself;
* `trimStart`, `trimEnd`, `trim`: the text without the blanks at its start, its end, both. -/

namespace OrderDesk.Text

/-- The character has the `White_Space` property. -/
def isBlank (c : Char) : Bool :=
  let n := c.toNat
  (0x09 ≤ n && n ≤ 0x0D) || n == 0x20 || n == 0x85 || n == 0xA0 || n == 0x1680 ||
    (0x2000 ≤ n && n ≤ 0x200A) || n == 0x2028 || n == 0x2029 || n == 0x202F ||
    n == 0x205F || n == 0x3000

/-- The character is one of the 65 control characters (`Cc`). -/
def isControl (c : Char) : Bool :=
  c.toNat < 0x20 || (0x7F ≤ c.toNat && c.toNat ≤ 0x9F)

def trimStart (s : List Char) : List Char := s.dropWhile isBlank

def trimEnd (s : List Char) : List Char := (trimStart s.reverse).reverse

def trim (s : List Char) : List Char := trimEnd (trimStart s)

def trimmed (s : String) : String := .ofList (trim s.toList)

def allBlank (s : String) : Bool := s.toList.all isBlank

theorem trimStart_append_of_blank {s : List Char} (h : s.all isBlank) (t : List Char) :
    trimStart (s ++ t) = trimStart t := by
  induction s with
  | nil => rfl
  | cons c s ih =>
    simp only [List.all_cons, Bool.and_eq_true] at h
    simpa [trimStart, h.1] using ih h.2

end OrderDesk.Text
