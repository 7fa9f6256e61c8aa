import OrderDesk.Toml.Quoted
import OrderDesk.Toml.Datetime

/-! # TOML words

A value that is neither quoted nor a collection is one word: `true`, `false`, a number, a date or
a time. An underscore may stand between any two digits of a number.

* `integer?`: a decimal integer, or one in base 16, 8 or 2, that fits 64 bits with a sign;
* `floating?`: a decimal number with a point or an exponent, an infinity or no number;
* `Scalar.read?`: the word or quoted text at the head. -/

namespace OrderDesk.Toml.Scalar

/-- The digits of a number without the underscores, each of which stands between two digits. -/
def ungroup? (isDigit : Char → Bool) : List Char → Option (List Char)
  | [] => none
  | [c] => if isDigit c then some [c] else none
  | c :: '_' :: s => if isDigit c then (ungroup? isDigit s).map (c :: ·) else none
  | c :: s => if isDigit c then (ungroup? isDigit s).map (c :: ·) else none

/-- The digits of a whole number: a zero comes first only alone. -/
def whole? (s : List Char) : Option (List Char) :=
  match ungroup? Char.isDigit s with
  | some ('0' :: _ :: _) => none
  | ds => ds

def sign : List Char → Bool × List Char
  | '-' :: s => (true, s)
  | '+' :: s => (false, s)
  | s => (false, s)

def maxInteger : Nat := Nat.pow 2 63 - 1

def based? (base : Nat) (s : List Char) : Option Int := do
  let isDigit (c : Char) := (Text.hexDigit? c).any (· < base)
  let ds ← ungroup? isDigit s
  let n := Text.hexValue base ds
  if n ≤ maxInteger then some n else none

def decimal? (s : List Char) : Option Int := do
  let (negative, ds) := sign s
  let n := Double.digitsValue (← whole? ds)
  if negative then (if n ≤ maxInteger + 1 then some (-(n : Int)) else none)
  else if n ≤ maxInteger then some n else none

def integer? : List Char → Option Int
  | '0' :: 'x' :: s => based? 16 s
  | '0' :: 'o' :: s => based? 8 s
  | '0' :: 'b' :: s => based? 2 s
  | s => decimal? s

def exponent? (s : List Char) : Option Int := do
  let (negative, ds) := sign s
  let n := Double.digitsValue (← ungroup? Char.isDigit ds)
  pure (if negative then -(n : Int) else n)

/-- Whole digits, then a fraction, an exponent or both. -/
def scientific? (negative : Bool) (s : List Char) : Option Decimal := do
  let isEnd (c : Char) := c == '.' || c == 'e' || c == 'E'
  let ds ← whole? (s.takeWhile (!isEnd ·))
  let (fraction, rest) ← match s.dropWhile (!isEnd ·) with
    | '.' :: t => do
      let fraction ← ungroup? Char.isDigit (t.takeWhile (!isEnd ·))
      pure (fraction, t.dropWhile (!isEnd ·))
    | t => if t.isEmpty then none else pure ([], t)
  let e ← match rest with
    | [] => pure 0
    | '.' :: _ => none
    | _ :: t => exponent? t
  pure ⟨negative, Double.digitsValue (ds ++ fraction), e - (fraction.length : Int)⟩

/-- A number beyond the largest double does not exist. -/
def floating? (s : List Char) : Option Double :=
  let (negative, t) := sign s
  if t == "inf".toList then some (.infinite negative)
  else if t == "nan".toList then some .nan
  else
    match (scientific? negative t).map Double.ofDecimal with
    | some (.infinite _) => none
    | x => x

def ofWord? (s : List Char) : Option Value :=
  if s == "true".toList then some (.boolean true)
  else if s == "false".toList then some (.boolean false)
  else (integer? s).map .integer <|> (floating? s).map .floating <|>
    (Datetime.canonical? s).map .datetime

def isWordChar (c : Char) : Bool :=
  c.isAlphanum || c == '_' || c == '-' || c == '+' || c == '.' || c == ':'

/-- The word at the head; a date takes in the time that follows it after a blank. -/
def word (s : List Char) : List Char × List Char :=
  let w := s.takeWhile isWordChar
  let rest := s.dropWhile isWordChar
  if Datetime.startsTime w rest then
    (w ++ ' ' :: (rest.drop 1).takeWhile isWordChar, (rest.drop 1).dropWhile isWordChar)
  else (w, rest)

/-- The word or quoted text at the head. -/
def read? : Reader Value
  | '"' :: s => (Quoted.read? ('"' :: s)).map fun (t, s) => (.text t, s)
  | '\'' :: s => (Quoted.read? ('\'' :: s)).map fun (t, s) => (.text t, s)
  | s =>
    let (w, rest) := word s
    (ofWord? w).map fun v => (v, rest)

end OrderDesk.Toml.Scalar
