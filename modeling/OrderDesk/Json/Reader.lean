import OrderDesk.Json.Error
import OrderDesk.Text.Utf8

/-! # Reading JSON: the frame

A reader takes the bytes that are left and gives a value and the bytes after it, or the first
fault. Where a loop needs a bound it is the number of bytes left, since every round takes one.

* `Reader`: the type of all readers;
* `here`, `peek`: faults reported before the next byte, or after it;
* `skipBlank`: the white space of JSON;
* `Json.parse`: a whole text, with the place of its fault. -/

namespace OrderDesk.Json

abbrev Reader (α : Type) := Bytes → Except Fault (α × Bytes)

/-- A fault noticed before `rest`. -/
def here (cause : Cause) (rest : Bytes) : Fault := ⟨cause, rest.length⟩

/-- A fault noticed at the first byte of `rest`, which counts as read if there is one. -/
def peek (cause : Cause) (rest : Bytes) : Fault := ⟨cause, rest.length - 1⟩

def isSpace (b : UInt8) : Bool := b == 0x20 || b == 0x09 || b == 0x0A || b == 0x0D

def isDigit (b : UInt8) : Bool := 0x30 ≤ b && b ≤ 0x39

def digitValue (b : UInt8) : Nat := b.toNat - 0x30

def skipBlank (s : Bytes) : Bytes := s.dropWhile isSpace

/-- The bytes of `true`, `false` or `null` after the first. -/
def ident : (expected : List UInt8) → Bytes → Except Fault Bytes
  | [], s => .ok s
  | _ :: _, [] => .error (here .eofValue [])
  | e :: es, b :: s => if b = e then ident es s else .error (here .expectedIdent s)

/-- Only white space may follow the value of a text. -/
def parse {α : Type} (read : Reader α) (input : Bytes) : Except Error α :=
  match read input with
  | .error f => .error (f.locate input)
  | .ok (a, rest) =>
    match skipBlank rest with
    | [] => .ok a
    | rest => .error ((peek .trailingCharacters rest).locate input)

end OrderDesk.Json
