import OrderDesk.Order.Validation

/-! # Failures on the read and write path

* `OrderError`: the kinds of failure, worded by `OrderError.text`;
* `OrderError.isTransient`: the failures that another attempt may get past. -/

namespace OrderDesk

inductive OrderError where
  /-- No tier knows the order. -/
  | notFound (uid : String)
  | validation (error : ValidationError)
  | storage (message : String)
  | cache (message : String)
  | internal (message : String)
  deriving DecidableEq, Repr

namespace OrderError

def text : OrderError → String
  | .notFound uid => s!"order not found: {uid}"
  | .validation e => s!"invalid order: {e.text}"
  | .storage m => s!"storage error: {m}"
  | .cache m => s!"cache error: {m}"
  | .internal m => s!"internal error: {m}"

def isNotFound : OrderError → Bool
  | .notFound _ => true
  | _ => false

def isValidation : OrderError → Bool
  | .validation _ => true
  | _ => false

def isTransient : OrderError → Bool
  | .storage _ | .cache _ => true
  | _ => false

end OrderError

end OrderDesk
