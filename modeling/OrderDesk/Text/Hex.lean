/-! # Hexadecimal digits

* `hex`: a number in lower case digits;
* `hexDigit?`: the value of a digit of either case;
* `hexValue`: the value of a row of digits. -/

namespace OrderDesk.Text

/-- Lower case hexadecimal digits, without leading zeros. -/
def hex (n : Nat) : List Char := Nat.toDigits 16 n

def hexDigit? (c : Char) : Option Nat :=
  if '0' ≤ c ∧ c ≤ '9' then some (c.toNat - '0'.toNat)
  else if 'a' ≤ c ∧ c ≤ 'f' then some (c.toNat - 'a'.toNat + 10)
  else if 'A' ≤ c ∧ c ≤ 'F' then some (c.toNat - 'A'.toNat + 10)
  else none

def isHexDigit (c : Char) : Bool := (hexDigit? c).isSome

/-- The value of digits in a base of at most 16; what is no digit counts as zero. -/
def hexValue (base : Nat) (s : List Char) : Nat :=
  s.foldl (fun n c => base * n + (hexDigit? c).getD 0) 0

def hexByte? (b : UInt8) : Option Nat := hexDigit? (.ofNat b.toNat)

end OrderDesk.Text
