/-! # The shortest decimal of a double

A double stands for every real number that rounds to it. Among the decimals in that interval
the one with the fewest digits is chosen, and of several with equally few digits the one
nearest to the double, an even last digit breaking ties. All of it is exact arithmetic on
natural numbers.

* `Decimal`: a decimal number in scientific form;
* `Binary.ofBits`: the sign, mantissa and exponent of a finite double;
* `Decimal.shortest`: the decimal of a double. -/

namespace OrderDesk

/-- The number `± coefficient · 10 ^ exponent`. -/
structure Decimal where
  negative : Bool
  coefficient : Nat
  exponent : Int
  deriving DecidableEq, Repr, Inhabited

/-- The finite double `± mantissa · 2 ^ exponent`. -/
structure Binary where
  negative : Bool
  mantissa : Nat
  exponent : Int
  /-- The double below is only half as far away as the one above. -/
  lowerHalf : Bool
  deriving DecidableEq, Repr

/-- `none` for the infinities and the values that are no number. -/
def Binary.ofBits (bits : UInt64) : Option Binary :=
  let n : Nat := bits.toNat
  let negative : Bool := n / Nat.pow 2 63 == 1
  let biased : Nat := n / Nat.pow 2 52 % Nat.pow 2 11
  let fraction : Nat := n % Nat.pow 2 52
  if biased == 2047 then none
  else if biased == 0 then some ⟨negative, fraction, -1074, false⟩
  else some ⟨negative, Nat.pow 2 52 + fraction, (biased : Int) - 1075, fraction == 0 && biased != 1⟩

namespace Decimal

/-- The number of decimal digits of `n`; `0` has none. -/
def digitCount (n : Nat) : Nat := if n = 0 then 0 else (Nat.toDigits 10 n).length

/-- The exponent `e` with `10 ^ e ≤ num / den < 10 ^ (e + 1)`, both numbers being positive. -/
def leadingExponent (num den : Nat) : Int :=
  if den ≤ num then (digitCount (num / den) : Int) - 1
  else -(digitCount ((den - 1) / num) : Int)

def powerOfTen (e : Int) : Nat × Nat :=
  if 0 ≤ e then (Nat.pow 10 e.toNat, 1) else (1, Nat.pow 10 (-e).toNat)

/-- The multiples of `10 ^ unit` next to `value / den` that lie between `low / den` and
`high / den`, the nearer one if both do, the even one if both are equally near. The ends
belong to the interval when `closed`. -/
def nearestMultiple (low value high den : Nat) (unit : Int) (closed : Bool) : Option Nat :=
  let (up, down) := powerOfTen unit
  let step := den * up
  let fits (c : Nat) : Bool :=
    if closed then low * down ≤ c * step && c * step ≤ high * down
    else low * down < c * step && c * step < high * down
  let below := value * down / step
  let above := below + 1
  match fits below, fits above with
  | true, false => some below
  | false, true => some above
  | false, false => none
  | true, true =>
    let left := value * down - below * step
    let right := above * step - value * down
    if left < right then some below
    else if right < left then some above
    else if below % 2 = 0 then some below else some above

/-- `c · 10 ^ e` without the zeros at the end of `c`; `fuel` bounds their number. -/
def dropZeros : (fuel : Nat) → Nat → Int → Nat × Int
  | 0, c, e => (c, e)
  | fuel + 1, c, e => if c % 10 = 0 then dropZeros fuel (c / 10) (e + 1) else (c, e)

/-- The first grid of `digits`, `digits + 1`, … significant digits that has a point in the
interval. -/
def firstHit (low value high den : Nat) (top : Int) (closed : Bool) :
    (tries digits : Nat) → Nat × Int
  | 0, _ => (value / den, 0)
  | tries + 1, digits =>
    let unit := top - digits + 1
    match nearestMultiple low value high den unit closed with
    | some c => dropZeros 20 c unit
    | none => firstHit low value high den top closed tries (digits + 1)

/-- The shortest decimal that rounds to the finite double. Seventeen digits always suffice. -/
def ofBinary (b : Binary) : Decimal :=
  if b.mantissa = 0 then ⟨b.negative, 0, 0⟩
  else
    let quarter := b.exponent - 2
    let scale := if 0 ≤ quarter then Nat.pow 2 quarter.toNat else 1
    let den := if 0 ≤ quarter then 1 else Nat.pow 2 (-quarter).toNat
    let value := 4 * b.mantissa * scale
    let low := (4 * b.mantissa - if b.lowerHalf then 1 else 2) * scale
    let high := (4 * b.mantissa + 2) * scale
    let (c, e) := firstHit low value high den (leadingExponent value den)
      (b.mantissa % 2 == 0) 17 1
    ⟨b.negative, c, e⟩

/-- The shortest decimal of a double; `none` when it is infinite or no number. -/
def shortest (x : Float) : Option Decimal := (Binary.ofBits x.toBits).map ofBinary

end Decimal

end OrderDesk
