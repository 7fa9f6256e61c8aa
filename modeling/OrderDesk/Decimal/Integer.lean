/-! # Decimal integers of a bounded range

An integer is an optional sign and at least one decimal digit. It is read from the left, and the
first digit that is none or that takes the number out of its range is the error.

* `readUnsigned`: a number without a minus sign, below a bound;
* `readSigned`: a number with either sign. -/

namespace OrderDesk.Decimal

inductive IntegerError where
  | empty
  | invalidDigit
  | tooLarge
  | tooSmall
  deriving DecidableEq, Repr

def IntegerError.text : IntegerError → String
  | .empty => "cannot parse integer from empty string"
  | .invalidDigit => "invalid digit found in string"
  | .tooLarge => "number too large to fit in target type"
  | .tooSmall => "number too small to fit in target type"

def digitValue? (c : Char) : Option Nat :=
  if '0' ≤ c ∧ c ≤ '9' then some (c.toNat - '0'.toNat) else none

/-- The number that digits continue `n` to, as long as it is at most `max`. -/
def readDigits (max : Nat) (beyond : IntegerError) (n : Nat) : List Char → Except IntegerError Nat
  | [] => .ok n
  | c :: cs =>
    match digitValue? c with
    | none => .error .invalidDigit
    | some d => if n * 10 + d ≤ max then readDigits max beyond (n * 10 + d) cs else .error beyond

/-- A number of at most `max`; a plus sign may come first. -/
def readUnsigned (max : Nat) : List Char → Except IntegerError Nat
  | [] => .error .empty
  | ['+'] | ['-'] => .error .invalidDigit
  | '+' :: cs => readDigits max .tooLarge 0 cs
  | cs => readDigits max .tooLarge 0 cs

/-- A number from `-max - 1` to `max`; a sign may come first. -/
def readSigned (max : Nat) : List Char → Except IntegerError Int
  | [] => .error .empty
  | ['+'] | ['-'] => .error .invalidDigit
  | '+' :: cs => (readDigits max .tooLarge 0 cs).map Int.ofNat
  | '-' :: cs => (readDigits (max + 1) .tooSmall 0 cs).map fun n => -(n : Int)
  | cs => (readDigits max .tooLarge 0 cs).map Int.ofNat

end OrderDesk.Decimal
