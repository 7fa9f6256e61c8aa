/-! # Lengths of time

The text of a length of time: the largest unit of `s`, `ms`, `µs`, `ns` that the length
reaches, with the rest as a fraction in that unit without zeros at its end. -/

namespace OrderDesk.Duration

/-- The digits of `n / 10 ^ places` after the point, without zeros at the end. -/
def fractionDigits (places n : Nat) : List Char :=
  let ds := Nat.toDigits 10 n
  ((List.replicate (places - ds.length) '0' ++ ds).reverse.dropWhile (· == '0')).reverse

/-- `nanos / 10 ^ places` followed by the name of the unit. -/
def inUnit (nanos places : Nat) (unit : String) : String :=
  match fractionDigits places (nanos % Nat.pow 10 places) with
  | [] => toString (nanos / Nat.pow 10 places) ++ unit
  | ds => toString (nanos / Nat.pow 10 places) ++ "." ++ .ofList ds ++ unit

def text (nanos : Nat) : String :=
  if Nat.pow 10 9 ≤ nanos then inUnit nanos 9 "s"
  else if Nat.pow 10 6 ≤ nanos then inUnit nanos 6 "ms"
  else if Nat.pow 10 3 ≤ nanos then inUnit nanos 3 "µs"
  else toString nanos ++ "ns"

end OrderDesk.Duration
