import OrderDesk.Decimal.Integer
import OrderDesk.Text.Hex

/-! # Socket addresses

The address that a server listens on: four octets and a number as in `127.0.0.1:80`, or eight
groups of 16 bits as in `[2001:db8::1]:80`, perhaps with a scope as in `[fe80::1%3]:80`.

* `Address.parse?`: the address that a whole text describes;
* `Address.text`: its canonical text, in which `::` stands for the longest run of at least two zero
  groups, the first of several. -/

namespace OrderDesk

inductive Address where
  | v4 (octets : List Nat) (portNumber : Nat)
  | v6 (groups : List Nat) (scope portNumber : Nat)
  deriving DecidableEq, Repr

namespace Address

abbrev Reader (α : Type) := List Char → Option (α × List Char)

/-! ## Reading -/

/-- The rest of a text that starts with `c`. -/
def skip? (c : Char) : List Char → Option (List Char)
  | [] => none
  | d :: s => if d = c then some s else none

/-- A decimal number of at most `max`, however many zeros it starts with. -/
def number? (max : Nat) : Reader Nat := fun s =>
  let ds := s.takeWhile Char.isDigit
  match Decimal.readUnsigned max ds with
  | .ok n => some (n, s.dropWhile Char.isDigit)
  | .error _ => none

/-- A number of one to three digits below 256. Only zero itself starts with a zero. -/
def octet? : Reader Nat := fun s =>
  let ds := s.takeWhile Char.isDigit
  if 3 < ds.length ∨ (1 < ds.length ∧ ds.head? = some '0') then none else number? 255 s

/-- `n` octets, each after a point. -/
def octets? : (n : Nat) → Reader (List Nat)
  | 0, s => some ([], s)
  | n + 1, s => do
    let (o, s) ← octet? (← skip? '.' s)
    let (os, s) ← octets? n s
    pure (o :: os, s)

def quad? : Reader (List Nat) := fun s => do
  let (o, s) ← octet? s
  let (os, s) ← octets? 3 s
  pure (o :: os, s)

def group? : Reader Nat := fun s =>
  let ds := s.takeWhile Text.isHexDigit
  if ds.isEmpty ∨ 4 < ds.length then none
  else some (Text.hexValue 16 ds, s.dropWhile Text.isHexDigit)

/-- Two groups for four octets. -/
def pairs : List Nat → List Nat
  | a :: b :: os => (256 * a + b) :: pairs os
  | _ => []

/-- As many groups as there are, at most `n`, with colons between them and before the first, unless
it is the `first` of all. The last two may be written as four octets, which the result tells. -/
def groups : (n : Nat) → (first : Bool) → List Char → (List Nat × Bool) × List Char
  | 0, _, s => (([], false), s)
  | n + 1, first, s =>
    match if first then some s else skip? ':' s with
    | none => (([], false), s)
    | some t =>
      match if 0 < n then quad? t else none with
      | some (os, rest) => ((pairs os, true), rest)
      | none =>
        match group? t with
        | none => (([], false), s)
        | some (g, rest) =>
          let ((gs, dotted), rest) := groups n false rest
          ((g :: gs, dotted), rest)

/-- Eight groups, of which `::` stands for at least one. -/
def eight? : Reader (List Nat) := fun s =>
  let ((front, dotted), s) := groups 8 true s
  if front.length = 8 then some (front, s)
  else if dotted then none
  else do
    let s ← skip? ':' (← skip? ':' s)
    let ((back, _), s) := groups (7 - front.length) true s
    pure (front ++ List.replicate (8 - front.length - back.length) 0 ++ back, s)

def maxPortNumber : Nat := Nat.pow 2 16 - 1
def maxScope : Nat := Nat.pow 2 32 - 1

/-- The number of 16 bits after a colon, up to the end. -/
def portNumber? (s : List Char) : Option Nat := do
  match ← number? maxPortNumber (← skip? ':' s) with
  | (n, []) => some n
  | _ => none

/-- The number after a percent sign; without one it is zero. -/
def scope? : Reader Nat
  | '%' :: s => number? maxScope s
  | s => some (0, s)

def readV4? (s : List Char) : Option Address := do
  let (os, s) ← quad? s
  return .v4 os (← portNumber? s)

def readV6? (s : List Char) : Option Address := do
  let (gs, s) ← eight? (← skip? '[' s)
  let (scope, s) ← scope? s
  return .v6 gs scope (← portNumber? (← skip? ']' s))

def parse? (s : String) : Option Address := readV4? s.toList <|> readV6? s.toList

/-! ## Writing -/

def dotted (octets : List Nat) : String := ".".intercalate (octets.map toString)

def colonText (groups : List Nat) : String :=
  ":".intercalate (groups.map fun g => .ofList (Text.hex g))

/-- Where the first of the longest runs of zeros starts, and its length. -/
def longestRun : List Nat → Nat × Nat
  | [] => (0, 0)
  | g :: gs =>
    let here := ((g :: gs).takeWhile (· == 0)).length
    let (start, length) := longestRun gs
    if 0 < here ∧ length ≤ here then (0, here) else (start + 1, length)

/-- Eight groups: the octets of an embedded address of four stand with points. -/
def groupsText (groups : List Nat) : String :=
  match groups with
  | [0, 0, 0, 0, 0, 0xFFFF, a, b] => "::ffff:" ++ dotted [a / 256, a % 256, b / 256, b % 256]
  | _ =>
    let (start, length) := longestRun groups
    if 1 < length then
      colonText (groups.take start) ++ "::" ++ colonText (groups.drop (start + length))
    else colonText groups

def text : Address → String
  | .v4 octets n => dotted octets ++ ":" ++ toString n
  | .v6 groups scope n =>
    let scope := if scope = 0 then "" else "%" ++ toString scope
    "[" ++ groupsText groups ++ scope ++ "]:" ++ toString n

end Address

end OrderDesk
