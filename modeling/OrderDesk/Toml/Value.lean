import OrderDesk.Decimal.Double

/-! # TOML values

* `Value`: what a key can stand for;
* `Reader`: takes the characters that are left and gives a value and the characters after it;
* `newline?`, `skipBlank`, `skipComment`, `skipLine?`, `skipSpace`: what may stand between
  values. -/

namespace OrderDesk.Toml

inductive Value where
  | text (s : String)
  | integer (n : Int)
  | floating (x : Double)
  | boolean (b : Bool)
  /-- A date, a time or both, in canonical form. -/
  | datetime (s : String)
  | array (elements : List Value)
  | table (members : List (String × Value))
  deriving Repr, Inhabited

abbrev Reader (α : Type) := List Char → Option (α × List Char)

def isSpace (c : Char) : Bool := c == ' ' || c == '\t'

/-- The character may stand in a comment and, unless it ends it, in a text of one line: every
character but the control characters, of which only the tab may. -/
def isPlain (c : Char) : Bool := c == '\t' || (0x20 ≤ c.toNat && c.toNat ≠ 0x7F)

def skipBlank (s : List Char) : List Char := s.dropWhile isSpace

/-- What follows a line feed, which a carriage return may precede. -/
def newline? : List Char → Option (List Char)
  | '\n' :: s => some s
  | '\r' :: '\n' :: s => some s
  | _ => none

def skipComment (s : List Char) : List Char :=
  match skipBlank s with
  | '#' :: s => s.dropWhile isPlain
  | s => s

/-- Passes the rest of a line that holds nothing more, and its end. -/
def skipLine? (s : List Char) : Option (List Char) :=
  match skipComment s with
  | [] => some []
  | s => newline? s

/-- Passes the ends of at most `fuel` lines and, on each line, what `skip` passes. -/
def skipLines (skip : List Char → List Char) : (fuel : Nat) → List Char → List Char
  | 0, s => s
  | fuel + 1, s =>
    match newline? (skip s) with
    | some s => skipLines skip fuel s
    | none => skip s

def skipBlankLines (s : List Char) : List Char := skipLines skipBlank (s.length + 1) s

def skipSpace (s : List Char) : List Char := skipLines skipComment (s.length + 1) s

end OrderDesk.Toml
