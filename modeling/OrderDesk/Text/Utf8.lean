/-! # UTF-8

Bytes to characters and back. Reading goes byte by byte: `scan` gives the characters in
order and `none` for each maximal ill-formed part, and the readers are views of it.

* `encode`: the bytes of a text;
* `decode?`: the text, when every byte belongs to a well-formed sequence;
* `lossy`: the text with `U+FFFD` in place of each maximal ill-formed part;
* `validLength`: how many bytes come before the first ill-formed part. -/

namespace OrderDesk

abbrev Bytes := List UInt8

namespace Text.Utf8

def encode (s : List Char) : Bytes := s.flatMap String.utf8EncodeChar

/-- A character of several bytes that has been started. -/
structure Pending where
  /-- The bits read so far. -/
  code : Nat
  /-- Continuation bytes still to come after the next one. -/
  more : Nat
  /-- The next byte has to lie in `low … high`, which rules out overlong forms, surrogates
  and code points beyond `U+10FFFF`. -/
  low : UInt8
  high : UInt8
  deriving DecidableEq, Repr

/-- What a byte at the start of a character begins. -/
inductive Lead where
  | single (c : Char)
  | several (p : Pending)
  | illFormed

def lead (b : UInt8) : Lead :=
  if b < 0x80 then .single (Char.ofNat b.toNat)
  else if b < 0xC2 then .illFormed
  else if b < 0xE0 then .several ⟨b.toNat - 0xC0, 0, 0x80, 0xBF⟩
  else if b = 0xE0 then .several ⟨0, 1, 0xA0, 0xBF⟩
  else if b = 0xED then .several ⟨0xD, 1, 0x80, 0x9F⟩
  else if b < 0xF0 then .several ⟨b.toNat - 0xE0, 1, 0x80, 0xBF⟩
  else if b = 0xF0 then .several ⟨0, 2, 0x90, 0xBF⟩
  else if b < 0xF4 then .several ⟨b.toNat - 0xF0, 2, 0x80, 0xBF⟩
  else if b = 0xF4 then .several ⟨4, 2, 0x80, 0x8F⟩
  else .illFormed

/-- The state after a fitting continuation byte: the finished character, or what is still
pending. -/
def Pending.push (p : Pending) (b : UInt8) : Char ⊕ Pending :=
  let code := p.code * 64 + (b.toNat - 0x80)
  match p.more with
  | 0 => .inl (Char.ofNat code)
  | n + 1 => .inr ⟨code, n, 0x80, 0xBF⟩

/-- The characters of the bytes in order, `none` standing for a maximal ill-formed part. A
byte that does not continue the pending character ends it and is looked at afresh. -/
def scanFrom : Option Pending → Bytes → List (Option Char)
  | none, [] => []
  | some _, [] => [none]
  | none, b :: bs =>
    match lead b with
    | .single c => some c :: scanFrom none bs
    | .several p => scanFrom (some p) bs
    | .illFormed => none :: scanFrom none bs
  | some p, b :: bs =>
    if p.low ≤ b ∧ b ≤ p.high then
      match p.push b with
      | .inl c => some c :: scanFrom none bs
      | .inr p => scanFrom (some p) bs
    else
      none ::
        match lead b with
        | .single c => some c :: scanFrom none bs
        | .several p => scanFrom (some p) bs
        | .illFormed => none :: scanFrom none bs

def scan (bs : Bytes) : List (Option Char) := scanFrom none bs

def decode? (bs : Bytes) : Option (List Char) := (scan bs).mapM id

def lossy (bs : Bytes) : List Char := (scan bs).map (·.getD '\uFFFD')

/-- The length of the longest prefix that holds whole characters only. -/
def validLength (bs : Bytes) : Nat :=
  (((scan bs).takeWhile (·.isSome)).filterMap id |>.map Char.utf8Size).foldr (· + ·) 0

end Text.Utf8

def Bytes.ofString (s : String) : Bytes := Text.Utf8.encode s.toList

/-- The text of the bytes, with `U+FFFD` for each maximal ill-formed part. -/
def Bytes.toStringLossy (bs : Bytes) : String := .ofList (Text.Utf8.lossy bs)

end OrderDesk
