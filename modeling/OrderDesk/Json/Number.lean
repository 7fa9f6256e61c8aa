import OrderDesk.Json.Reader

/-! # JSON numbers

An integer that fits 64 bits stays an integer; every other number becomes a double: `-0`, a
number with a point or an exponent, an integer beyond the range. Digits are gathered while the
significand fits 64 bits; those that do not fit before the point scale the number by ten each,
those behind it are dropped. The double is the rounded significand, multiplied or divided by
the rounded power of ten.

* `Number.read`: the number at the head of the text;
* `Number.skip`: passes over a number without a look at its size. -/

namespace OrderDesk.Json

inductive Number where
  | integer (n : Int)
  | floating (d : Decimal)
  deriving DecidableEq, Repr

def Number.found : Number → Found
  | .integer n => .integer n
  | .floating d => .floating d

namespace Number

def maxSignificand : Nat := Nat.pow 2 64 - 1

/-- The significand with as many of the digits as fit, and the digits that are left over. -/
def gather : Nat → Bytes → Nat × Bytes
  | n, [] => (n, [])
  | n, b :: bs =>
    let next := n * 10 + digitValue b
    if maxSignificand < next then (n, b :: bs) else gather next bs

/-- `x · 10 ^ exponent` in double arithmetic, `none` if it overflows. A power below `10⁻³⁰⁸` is
divided by in several rounds, which end once nothing is left. -/
def scale : (fuel : Nat) → Float → Int → Option Float
  | 0, x, _ => some x
  | fuel + 1, x, exponent =>
    if exponent.natAbs ≤ 308 then
      let power := Float.ofScientific 1 false exponent.natAbs
      if 0 ≤ exponent then
        let y := x * power
        if y.isInf then none else some y
      else some (x / power)
    else if x == 0.0 then some x
    else if 0 ≤ exponent then none
    else scale fuel (x / Float.ofScientific 1 false 308) (exponent + 308)

/-- The decimal of a finite double with the given sign. -/
def ofFloat (negative : Bool) (x : Float) : Number :=
  .floating ((Decimal.shortest (if negative then -x else x)).getD ⟨negative, 0, 0⟩)

/-- The double `± significand · 10 ^ exponent`, reported before `rest` if there is none. -/
def ofParts (negative : Bool) (significand : Nat) (exponent : Int) (rest : Bytes) :
    Except Fault (Number × Bytes) :=
  match scale 5 (Float.ofNat significand) exponent with
  | some x => .ok (ofFloat negative x, rest)
  | none => .error (here .numberOutOfRange rest)

def maxExponent : Nat := Nat.pow 2 31 - 1

/-- The exponent of digits, or the bytes after the digit at which it gets too large. -/
def gatherExponent : Nat → Bytes → Nat ⊕ Bytes
  | n, [] => .inl n
  | n, b :: bs =>
    let next := n * 10 + digitValue b
    if maxExponent < next then .inr bs else gatherExponent next bs

/-- The exponent after `e`. One that is too large is out of range, unless it makes the number
zero. -/
def exponent (negative : Bool) (significand : Nat) (scaled : Int) (s : Bytes) :
    Except Fault (Number × Bytes) :=
  let (up, s) := match s with
    | 0x2B :: s => (true, s)
    | 0x2D :: s => (false, s)
    | s => (true, s)
  match s with
  | [] => .error (here .eofValue [])
  | b :: rest =>
    if !isDigit b then .error (here .invalidNumber rest)
    else
      let after := rest.dropWhile isDigit
      match gatherExponent (digitValue b) (rest.takeWhile isDigit) with
      | .inl n =>
        let total := if up then scaled + n else scaled - n
        ofParts negative significand total after
      | .inr unread =>
        if significand ≠ 0 && up then .error ⟨.numberOutOfRange, unread.length + after.length⟩
        else .ok (ofFloat negative 0.0, after)

/-- The digits after a point, of which there has to be one, and what may follow them. -/
def fraction (negative : Bool) (significand : Nat) (scaled : Int) (s : Bytes) :
    Except Fault (Number × Bytes) :=
  let ds := s.takeWhile isDigit
  let rest := s.dropWhile isDigit
  if ds.isEmpty then
    .error (peek (if rest.isEmpty then .eofValue else .invalidNumber) rest)
  else
    let (n, unread) := gather significand ds
    let scaled := scaled - (ds.length - unread.length : Nat)
    match rest with
    | b :: rest =>
      if b == 0x65 || b == 0x45 then exponent negative n scaled rest
      else ofParts negative n scaled (b :: rest)
    | [] => ofParts negative n scaled []

/-- What may follow the digits before the point. An integer that fits stays one; `-0` does
not. -/
def afterInteger (negative : Bool) (significand dropped : Nat) (s : Bytes) :
    Except Fault (Number × Bytes) :=
  let whole : Except Fault (Number × Bytes) :=
    if dropped = 0 then
      if !negative then .ok (.integer significand, s)
      else if significand = 0 || Nat.pow 2 63 < significand then
        .ok (ofFloat true (Float.ofNat significand), s)
      else .ok (.integer (-significand), s)
    else ofParts negative significand dropped s
  match s with
  | b :: rest =>
    if b == 0x2E then fraction negative significand dropped rest
    else if b == 0x65 || b == 0x45 then exponent negative significand dropped rest
    else whole
  | [] => whole

/-- A number without its sign. No other digit may follow a leading zero. -/
def magnitude (negative : Bool) : Bytes → Except Fault (Number × Bytes)
  | [] => .error (here .eofValue [])
  | b :: s =>
    if b == 0x30 then
      match s with
      | c :: _ => if isDigit c then .error (peek .invalidNumber s) else afterInteger negative 0 0 s
      | [] => afterInteger negative 0 0 s
    else if isDigit b then
      let (n, unread) := gather (digitValue b) (s.takeWhile isDigit)
      afterInteger negative n unread.length (s.dropWhile isDigit)
    else .error (here .invalidNumber s)

def read : Reader Number
  | 0x2D :: s => magnitude true s
  | s => magnitude false s

/-! ## Skipping -/

def skipExponent (s : Bytes) : Except Fault Bytes :=
  let s := match s with
    | 0x2B :: s => s
    | 0x2D :: s => s
    | s => s
  match s with
  | [] => .error (here .invalidNumber [])
  | b :: s => if isDigit b then .ok (s.dropWhile isDigit) else .error (here .invalidNumber s)

def skipFraction (s : Bytes) : Except Fault Bytes :=
  let rest := s.dropWhile isDigit
  if rest.length = s.length then .error (peek .invalidNumber rest)
  else
    match rest with
    | b :: t => if b == 0x65 || b == 0x45 then skipExponent t else .ok rest
    | [] => .ok []

def skipAfterInteger : Bytes → Except Fault Bytes
  | b :: s =>
    if b == 0x2E then skipFraction s
    else if b == 0x65 || b == 0x45 then skipExponent s
    else .ok (b :: s)
  | [] => .ok []

def skipMagnitude : Bytes → Except Fault Bytes
  | [] => .error (here .invalidNumber [])
  | b :: s =>
    if b == 0x30 then
      match s with
      | c :: _ => if isDigit c then .error (peek .invalidNumber s) else skipAfterInteger s
      | [] => .ok []
    else if isDigit b then skipAfterInteger (s.dropWhile isDigit)
    else .error (here .invalidNumber s)

/-- Passes the number that starts with the first byte, a digit or a minus sign. -/
def skip : Bytes → Except Fault Bytes
  | 0x2D :: s => skipMagnitude s
  | s => skipMagnitude s

end Number

end OrderDesk.Json
