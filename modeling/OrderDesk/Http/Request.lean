import OrderDesk.Text.Blank

/-! # What requests ask for

* `OrderId.check`: the order id of a path, without the blanks around it;
* `Limit`: how many orders a listing may hold. -/

namespace OrderDesk.Http

/-- Why a text in a path is no order id. -/
inductive IdError where
  | empty
  | tooLong
  | control
  deriving DecidableEq, Repr

/-- The longest id that is looked up, in bytes. -/
def maxIdBytes : Nat := 128

def IdError.message : IdError → String
  | .empty => "Order id cannot be empty"
  | .tooLong => s!"Order id cannot be longer than {maxIdBytes} characters"
  | .control => "Order id cannot contain control characters"

def checkId (text : String) : Except IdError String :=
  let id := Text.trimmed text
  if id.isEmpty then .error .empty
  else if maxIdBytes < id.utf8ByteSize then .error .tooLong
  else if id.toList.any Text.isControl then .error .control
  else .ok id

def defaultLimit : Nat := 10

def maxLimit : Nat := 1000

def clampLimit (limit : Nat) : Nat := min limit maxLimit

end OrderDesk.Http
