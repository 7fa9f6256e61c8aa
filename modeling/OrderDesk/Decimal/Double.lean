import OrderDesk.Decimal.Notation
import OrderDesk.Decimal.Integer

/-! # Doubles by their value

A double as a finite binary number, an infinity or no number, and the way from decimal text to
it and back. Everything is exact arithmetic on natural numbers.

* `Double.nearest`: the double nearest to a quotient, a tie going to the even mantissa;
* `Double.ofDecimal`: the double nearest to a decimal;
* `Double.read?`: the double that a text denotes;
* `Double.round`: the nearest whole number in a range;
* `Double.text`: the plain decimal text. -/

namespace OrderDesk

inductive Double where
  | finite (value : Binary)
  | infinite (negative : Bool)
  | nan
  deriving DecidableEq, Repr

namespace Double

/-- The whole number nearest to `num / den`, the even one of two. -/
def roundToEven (num den : Nat) : Nat :=
  let below := num / den
  let twice := 2 * (num % den)
  if twice < den then below else if den < twice then below + 1 else below + below % 2

/-- `num / den` divided by `2 ^ e`, as a fraction. -/
def scaleDown (num den : Nat) (e : Int) : Nat × Nat :=
  if 0 ≤ e then (num, den * Nat.pow 2 e.toNat) else (num * Nat.pow 2 (-e).toNat, den)

/-- The exponent `e` with `2 ^ e ≤ num / den < 2 ^ (e + 1)`, both numbers being positive. -/
def leadingPower (num den : Nat) : Int :=
  let e : Int := (num.log2 : Int) - den.log2
  let (n, d) := scaleDown num den e
  if d ≤ n then e else e - 1

/-- The double with 53 bits, the lowest of which stands for at least `2 ^ -1074`, that is nearest
to `± num / den`. -/
def nearest (negative : Bool) (num den : Nat) : Double :=
  if num = 0 then .finite ⟨negative, 0, -1074, false⟩
  else
    let e := max (leadingPower num den - 52) (-1074)
    let (n, d) := scaleDown num den e
    let rounded := roundToEven n d
    let (m, e) := if rounded = Nat.pow 2 53 then (Nat.pow 2 52, e + 1) else (rounded, e)
    if 971 < e then .infinite negative
    else .finite ⟨negative, m, e, m == Nat.pow 2 52 && e != -1074⟩

/-- The double nearest to a decimal. From `10 ^ 310` on it is infinite and below `10 ^ -330` it is
zero, so that no larger power of ten is ever formed. -/
def ofDecimal (d : Decimal) : Double :=
  if d.coefficient = 0 then nearest d.negative 0 1
  else if 310 < d.pointPosition then .infinite d.negative
  else if d.pointPosition < -330 then nearest d.negative 0 1
  else
    let (up, down) := Decimal.powerOfTen d.exponent
    nearest d.negative (d.coefficient * up) down

/-- The text is `word`, whose letters may be of either case. -/
def isWord (word : String) (s : List Char) : Bool := s.map Char.toLower == word.toList

/-- The number that a text of digits denotes, without a limit. -/
def digitsValue (s : List Char) : Nat := s.foldl (fun n c => n * 10 + (c.toNat - '0'.toNat)) 0

/-- The exponent after its letter: digits after an optional sign. -/
def readExponent? (s : List Char) : Option Int :=
  let (negative, ds) := match s with
    | '-' :: ds => (true, ds)
    | '+' :: ds => (false, ds)
    | ds => (false, ds)
  if ds.isEmpty || !ds.all Char.isDigit then none
  else if negative then some (-(digitsValue ds : Int)) else some (digitsValue ds)

/-- Digits with at most one point among or around them, then an optional exponent. -/
def readDecimal? (negative : Bool) (s : List Char) : Option Decimal :=
  let whole := s.takeWhile Char.isDigit
  let (fraction, rest) : List Char × List Char := match s.dropWhile Char.isDigit with
    | '.' :: t => (t.takeWhile Char.isDigit, t.dropWhile Char.isDigit)
    | t => ([], t)
  if whole.isEmpty && fraction.isEmpty then none
  else
    let decimal (e : Int) : Decimal :=
      ⟨negative, digitsValue (whole ++ fraction), e - (fraction.length : Int)⟩
    match rest with
    | [] => some (decimal 0)
    | c :: t => if c == 'e' || c == 'E' then (readExponent? t).map decimal else none

def readMagnitude? (negative : Bool) (s : List Char) : Option Double :=
  if isWord "inf" s || isWord "infinity" s then some (.infinite negative)
  else if isWord "nan" s then some .nan
  else (readDecimal? negative s).map ofDecimal

/-- The double that the text denotes: a decimal, `inf`, `infinity` or `nan`, after an optional
sign. -/
def read? : List Char → Option Double
  | '-' :: s => readMagnitude? true s
  | '+' :: s => readMagnitude? false s
  | s => readMagnitude? false s

/-- The whole number from `0` to `max` nearest to the double; a half is rounded up, and what is no
number counts as `0`. -/
def round (max : Nat) : Double → Nat
  | .nan => 0
  | .infinite negative => if negative then 0 else max
  | .finite b =>
    if b.negative then 0
    else if 0 ≤ b.exponent then min max (b.mantissa * Nat.pow 2 b.exponent.toNat)
    else
      let den := Nat.pow 2 (-b.exponent).toNat
      min max ((2 * b.mantissa + den) / (2 * den))

/-- The shortest decimal that reads back, without an exponent; `inf`, `-inf` or `NaN`. -/
def text : Double → String
  | .finite b => (Decimal.ofBinary b).plain
  | .infinite negative => if negative then "-inf" else "inf"
  | .nan => "NaN"

/-- The text with `.0` after a whole number. -/
def pointedText (x : Double) : String :=
  match x with
  | .finite b => if (Decimal.ofBinary b).parts.2.isEmpty then x.text ++ ".0" else x.text
  | _ => x.text

end Double

end OrderDesk
