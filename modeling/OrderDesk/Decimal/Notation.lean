import OrderDesk.Decimal.Shortest

/-! # Writing decimals

* `Decimal.plain`: digits and at most one point, never an exponent and never a trailing `.0`;
* `Decimal.compact`: positional from `10⁻⁵` to `10¹⁶`, with `.0` after a whole number, and with a
  signed exponent outside;
* `floatText`: the plain text of any double. -/

namespace OrderDesk

namespace Decimal

def sign (d : Decimal) : String := if d.negative then "-" else ""

/-- The digits of the coefficient; `0` is written `0`. -/
def digits (d : Decimal) : List Char := Nat.toDigits 10 d.coefficient

/-- The digits before and after the point in positional notation. -/
def parts (d : Decimal) : List Char × List Char :=
  let ds := d.digits
  if 0 ≤ d.exponent then
    (if d.coefficient = 0 then ['0'] else ds ++ List.replicate d.exponent.toNat '0', [])
  else
    let places := (-d.exponent).toNat
    let padded := List.replicate (places + 1 - ds.length) '0' ++ ds
    padded.splitAt (padded.length - places)

def plain (d : Decimal) : String :=
  match d.parts with
  | (whole, []) => d.sign ++ .ofList whole
  | (whole, fraction) => d.sign ++ .ofList whole ++ "." ++ .ofList fraction

/-- How many digits stand before the point: `1` for `1 ≤ |d| < 10`. -/
def pointPosition (d : Decimal) : Int := (d.digits.length : Int) + d.exponent

/-- Scientific notation: one digit, the others after a point, the exponent with its sign. -/
def scientific (d : Decimal) : String :=
  let e := d.pointPosition - 1
  let mantissa :=
    match d.digits with
    | [] => ""
    | [c] => .ofList [c]
    | c :: cs => .ofList (c :: '.' :: cs)
  d.sign ++ mantissa ++ "e" ++ (if 0 ≤ e then "+" else "-") ++ toString e.natAbs

def compact (d : Decimal) : String :=
  if d.coefficient = 0 then d.sign ++ "0.0"
  else if -5 < d.pointPosition ∧ d.pointPosition ≤ 16 then
    match d.parts with
    | (whole, []) => d.sign ++ .ofList whole ++ ".0"
    | (whole, fraction) => d.sign ++ .ofList whole ++ "." ++ .ofList fraction
  else d.scientific

end Decimal

/-- The plain text of a double: its shortest decimal, `inf`, `-inf` or `NaN`. -/
def floatText (x : Float) : String :=
  match Decimal.shortest x with
  | some d => d.plain
  | none => if x.isNaN then "NaN" else if x < 0 then "-inf" else "inf"

end OrderDesk
