import OrderDesk.Http.Target

/-! # Routes

What a path names, and the methods that may be used on it. A method is its name; `HEAD` is
allowed wherever `GET` is. -/

namespace OrderDesk.Http

inductive Route where
  | health
  | order (id : List Char)
  | orders
  | deadLetters
  | metrics
  deriving DecidableEq, Repr

namespace Route

/-- The route of a path. An order's text has at least one character and no slash. -/
def ofTarget? (t : Target) : Option Route :=
  if t.path.startsWith "/" then
    match t.segments.map String.ofList with
    | ["health"] => some .health
    | ["orders"] => some .orders
    | ["dead-letters"] => some .deadLetters
    | ["metrics"] => some .metrics
    | ["order", id] => if id.isEmpty then none else some (.order id.toList)
    | _ => none
  else none

/-- The route as it labels a metric. -/
def pattern : Route → String
  | .health => "/health"
  | .order _ => "/order/\x7bid\x7d"
  | .orders => "/orders"
  | .deadLetters => "/dead-letters"
  | .metrics => "/metrics"

def unmatched : String := "unmatched"

def methods : Route → List String
  | .orders => ["GET", "HEAD", "POST"]
  | _ => ["GET", "HEAD"]

end Route

end OrderDesk.Http
