import OrderDesk.Json.Scalar

/-! # JSON records and lists

A record is an object with known members in any order, or an array of their values in the
declared order. Unknown members are passed over. Reading gives the values in declared order.

* `Shape`: the name and the fields of a record;
* `Shape.read`: reads a record;
* `readList`: reads an array of equal elements;
* `writeObject`, `writeList`: the compact forms. -/

namespace OrderDesk.Json

/-- A member of a record whose values are of type `μ`. -/
structure Field (μ : Type) where
  name : String
  read : Reader μ
  /-- The value when the member is missing, if it may be. -/
  absent : Option μ := none

structure Shape (μ : Type) where
  name : String
  fields : List (Field μ)

variable {μ α : Type}

/-! ## The parts of an object -/

/-- Goes to the next key of an object: `none` at the closing brace, which is passed. -/
def nextKey (first : Bool) (s : Bytes) : Except Fault (Option String × Bytes) :=
  let key : Bytes → Except Fault (Option String × Bytes)
    | [] => .error (peek .eofValue [])
    | b :: s =>
      if b = 0x22 then (Text.read s).map fun (k, s) => (some k, s)
      else if b = 0x7D then .error (peek .trailingComma (b :: s))
      else .error (peek .keyMustBeString (b :: s))
  match skipBlank s with
  | [] => .error (peek .eofObject [])
  | b :: s =>
    if b = 0x7D then .ok (none, s)
    else if first then key (b :: s)
    else if b = 0x2C then key (skipBlank s)
    else .error (peek .expectedObjectCommaOrEnd (b :: s))

/-- The place at which a repeated key is reported: before the colon, or after a closing brace
in its place. -/
def afterRepeatedKey (s : Bytes) : Bytes :=
  match skipBlank s with
  | [] => []
  | b :: s => if b = 0x7D then s else b :: s

/-- The known members of an object by name, from the place after its opening brace. -/
def members (fields : List (Field μ)) :
    (fuel : Nat) → (first : Bool) → List (String × μ) → Reader (List (String × μ))
  | 0, _, _, s => .error (here .eofObject s)
  | fuel + 1, first, found, s =>
    match nextKey first s with
    | .error f => .error f
    | .ok (none, s) => .ok (found, s)
    | .ok (some key, s) =>
      match fields.find? (·.name == key) with
      | none =>
        match (colon s).bind skipValue with
        | .error f => .error f
        | .ok s => members fields fuel false found s
      | some field =>
        if (found.lookup key).isSome then
          .error (here (.duplicateField key) (afterRepeatedKey s))
        else
          match (colon s).bind field.read with
          | .error f => .error f
          | .ok (value, s) => members fields fuel false ((key, value) :: found) s

/-- The values in declared order, or the first field that is missing. -/
def collect (found : List (String × μ)) : List (Field μ) → Except Cause (List μ)
  | [] => .ok []
  | field :: fields =>
    match (found.lookup field.name).or field.absent with
    | none => .error (.missingField field.name)
    | some value => (collect found fields).map (value :: ·)

/-! ## The parts of an array -/

/-- Goes to the next element of an array: `none` before the closing bracket. -/
def nextElement (first : Bool) (s : Bytes) : Except Fault (Option Bytes) :=
  match skipBlank s with
  | [] => .error (peek .eofList [])
  | b :: s =>
    if b = 0x5D then .ok none
    else if first then .ok (some (b :: s))
    else if b = 0x2C then
      match skipBlank s with
      | [] => .error (peek .eofValue [])
      | b :: s =>
        if b = 0x5D then .error (peek .trailingComma (b :: s)) else .ok (some (b :: s))
    else .error (peek .expectedListCommaOrEnd (b :: s))

/-- The closing bracket of an array that may hold no more elements. -/
def endOfArray (s : Bytes) : Except Fault Bytes :=
  match skipBlank s with
  | [] => .error (peek .eofList [])
  | b :: s =>
    if b = 0x5D then .ok s
    else if b = 0x2C then
      match skipBlank s with
      | [] => .error (peek .trailingCharacters [])
      | b :: s =>
        .error (peek (if b = 0x5D then .trailingComma else .trailingCharacters) (b :: s))
    else .error (peek .trailingCharacters (b :: s))

/-- The values of the fields from number `index` on, from an array, with what is wrong with
its length. -/
def positional (expected : String) :
    List (Field μ) → (index : Nat) → (first : Bool) → Reader (List μ)
  | [], _, _, s => (endOfArray s).map ([], ·)
  | field :: fields, index, first, s =>
    match nextElement first s with
    | .error f => .error f
    | .ok (some s) =>
      match field.read s with
      | .error f => .error f
      | .ok (value, s) =>
        (positional expected fields (index + 1) false s).map fun (vs, s) => (value :: vs, s)
    | .ok none =>
      match field.absent with
      | some value =>
        (positional expected fields (index + 1) first s).map fun (vs, s) => (value :: vs, s)
      | none =>
        match endOfArray s with
        | .error f => .error f
        | .ok s => .error (here (.invalidLength index expected) s)

/-! ## Records and lists -/

namespace Shape

/-- How an array that is too short is told what is due. -/
def arrayForm (shape : Shape μ) : String :=
  s!"struct {shape.name} with {shape.fields.length} elements"

def read (shape : Shape μ) : Reader (List μ) := fun s =>
  match skipBlank s with
  | [] => .error (peek .eofValue [])
  | b :: s =>
    if b = 0x5B then positional shape.arrayForm shape.fields 0 true s
    else if b = 0x7B then
      match members shape.fields (s.length + 1) true [] s with
      | .error f => .error f
      | .ok (found, s) =>
        match collect found shape.fields with
        | .error cause => .error (here cause s)
        | .ok values => .ok (values, s)
    else .error (mismatch s!"struct {shape.name}" (b :: s))

/-- Reads a record and builds a value of it. The values are in declared order, so `build`
fails on none. -/
def readAs (shape : Shape μ) (build : List μ → Option α) : Reader α := fun s =>
  match shape.read s with
  | .error f => .error f
  | .ok (values, s) =>
    match build values with
    | some a => .ok (a, s)
    | none => .error (here .expectedValue s)

end Shape

/-- The elements of an array after its opening bracket. -/
def elements (read : Reader α) : (fuel : Nat) → (first : Bool) → Reader (List α)
  | 0, _, s => .error (here .eofList s)
  | fuel + 1, first, s =>
    match nextElement first s with
    | .error f => .error f
    | .ok none => (endOfArray s).map ([], ·)
    | .ok (some s) =>
      match read s with
      | .error f => .error f
      | .ok (a, s) => (elements read fuel false s).map fun (as, s) => (a :: as, s)

def readList (read : Reader α) : Reader (List α) := fun s =>
  match skipBlank s with
  | [] => .error (peek .eofValue [])
  | b :: s =>
    if b = 0x5B then elements read (s.length + 1) true s
    else .error (mismatch "a sequence" (b :: s))

/-! ## Writing -/

/-- The members of an object, parted by commas, each key between quotes. -/
def writeMembers : List (String × List Char) → List Char
  | [] => []
  | [(k, v)] => Text.write k ++ ':' :: v
  | (k, v) :: ms => Text.write k ++ ':' :: v ++ ',' :: writeMembers ms

def writeObject (ms : List (String × List Char)) : List Char :=
  '\x7b' :: writeMembers ms ++ ['\x7d']

def writeElements : List (List Char) → List Char
  | [] => []
  | [v] => v
  | v :: vs => v ++ ',' :: writeElements vs

def writeList (vs : List (List Char)) : List Char := '[' :: writeElements vs ++ [']']

def writeInt (n : Int) : List Char := (toString n).toList

end OrderDesk.Json
