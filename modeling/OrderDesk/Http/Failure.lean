import OrderDesk.Ingest.Error
import OrderDesk.Json.Record
import OrderDesk.Order.Error

/-! # Failures as HTTP answers

* `Failure`: the kinds of failed request;
* `Failure.status`, `Failure.body`: the answer to one. -/

namespace OrderDesk.Http

inductive Failure where
  | notFound (uid : String)
  | badRequest (message : String)
  | unavailable (message : String)
  | internal (message : String)
  deriving DecidableEq, Repr

namespace Failure

def ofOrderError : OrderError → Failure
  | .notFound uid => .notFound uid
  | .validation e => .badRequest e.text
  | e => .internal e.text

def ofTransportError : TransportError → Failure
  | .closed => .unavailable "ingestion is shutting down"
  | e => .internal e.text

def status : Failure → Nat
  | .notFound _ => 404
  | .badRequest _ => 400
  | .unavailable _ => 503
  | .internal _ => 500

def title : Failure → String
  | .notFound _ => "Not Found"
  | .badRequest _ => "Bad Request"
  | .unavailable _ => "Service Unavailable"
  | .internal _ => "Internal Server Error"

def message : Failure → String
  | .notFound uid => s!"Order not found: {uid}"
  | .badRequest m | .unavailable m | .internal m => m

def body (f : Failure) : String :=
  .ofList (Json.writeObject [
    ("error", Json.Text.write f.title), ("message", Json.Text.write f.message)])

end Failure

end OrderDesk.Http
