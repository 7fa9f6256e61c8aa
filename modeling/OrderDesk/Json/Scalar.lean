import OrderDesk.Json.Skip

/-! # JSON scalars of a wanted kind

Each reader takes the value at the head of the text and reports what it found instead if that
is of another kind. A wrong scalar is read to its end first, a container is not entered.

* `mismatch`: the fault for a value of another kind;
* `readText`, `readInt64`, `readTimestamp`: the readers. -/

namespace OrderDesk.Json

/-- The fault for the value that starts with the first byte, where `expected` was due. -/
def mismatch (expected : String) (s : Bytes) : Fault :=
  let wrong (found : Found) (rest : Bytes) : Fault := here (.invalidType found expected) rest
  match s with
  | [] => peek .eofValue []
  | b :: s =>
    let word (letters : List UInt8) (found : Found) : Fault :=
      match ident letters s with
      | .error f => f
      | .ok rest => wrong found rest
    if b = 0x6E then word [0x75, 0x6C, 0x6C] .null
    else if b = 0x74 then word [0x72, 0x75, 0x65] (.boolean true)
    else if b = 0x66 then word [0x61, 0x6C, 0x73, 0x65] (.boolean false)
    else if b = 0x2D || isDigit b then
      match Number.read (b :: s) with
      | .error f => f
      | .ok (n, rest) => wrong n.found rest
    else if b = 0x22 then
      match Text.read s with
      | .error f => f
      | .ok (t, rest) => wrong (.text t) rest
    else if b = 0x5B then wrong .sequence (b :: s)
    else if b = 0x7B then wrong .map (b :: s)
    else peek .expectedValue (b :: s)

/-- A string, called `expected` when something else is found. -/
def readTextAs (expected : String) : Reader String := fun s =>
  match skipBlank s with
  | [] => .error (peek .eofValue [])
  | b :: s => if b = 0x22 then Text.read s else .error (mismatch expected (b :: s))

def readText : Reader String := readTextAs "a string"

def readInt64 : Reader Int64 := fun s =>
  match skipBlank s with
  | [] => .error (peek .eofValue [])
  | b :: s =>
    if b = 0x2D || isDigit b then
      match Number.read (b :: s) with
      | .error f => .error f
      | .ok (.integer n, rest) =>
        if n < Nat.pow 2 63 then .ok (Int64.ofInt n, rest)
        else .error (here (.invalidValue (.integer n) "i64") rest)
      | .ok (n, rest) => .error (here (.invalidType n.found "i64") rest)
    else .error (mismatch "i64" (b :: s))

def readTimestamp : Reader Timestamp := fun s =>
  match readTextAs "an RFC 3339 formatted date and time string" s with
  | .error f => .error f
  | .ok (text, rest) =>
    match Timestamp.ofText text with
    | .error e => .error (here (.badDate e) rest)
    | .ok t => .ok (t, rest)

end OrderDesk.Json
