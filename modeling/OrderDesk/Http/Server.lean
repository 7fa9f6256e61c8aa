import OrderDesk.Decimal.Integer
import OrderDesk.Http.Failure
import OrderDesk.Http.Request
import OrderDesk.Http.Route
import OrderDesk.Ingest.Timeline
import OrderDesk.Service

/-! # The HTTP interface

Requests to a service and to the channel that feeds its pipeline. `GET` reads the health, one
order, the latest orders, the dead letters or the metrics; `POST` publishes an order's payload
as it is, for the pipeline to judge.

* `Request`, `Response`: what goes in and out;
* `Server.handle`: the answer to a request;
* `Server.families`: the metrics page. -/

namespace OrderDesk.Http

structure Request where
  method : String
  target : Target
  headers : List (String × String) := []
  body : Bytes := []
  deriving DecidableEq, Repr

/-- The identity that the sender gave the request; the first header that carries one counts. -/
def Request.id? (r : Request) : Option String :=
  (r.headers.find? fun (name, _) => name.toLower == "x-request-id").map (·.2)

structure Response where
  status : Nat
  contentType : Option String := none
  /-- The methods that the route allows, when the used one is not among them. -/
  allow : List String := []
  body : String := ""
  deriving DecidableEq, Repr

namespace Response

def json (status : Nat) (body : String) : Response :=
  { status, contentType := some "application/json", body }

def plain (status : Nat) (body : String) : Response :=
  { status, contentType := some "text/plain; charset=utf-8", body }

def ofFailure (f : Failure) : Response := .json f.status f.body

def ofOrderError (e : OrderError) : Response := .ofFailure (.ofOrderError e)

def notFound : Response := { status := 404 }

def methodNotAllowed (route : Route) : Response := { status := 405, allow := route.methods }

end Response

/-- The service as the processor of a pipeline: an order is saved at once. -/
def serviceProcessor : Processor Service where
  process o s :=
    match s.save o with
    | (.ok (), s) => ((0, none), s)
    | (.error e, s) => ((0, some e), s)
  background := Service.flush

structure Server where
  /-- The service, with the pipeline that feeds it. -/
  timeline : Timeline Service
  /-- Dead letters are kept and can be looked at. -/
  retainsLetters : Bool
  /-- How many requests were answered, by method, route and status. -/
  answered : Tally (String × String × Nat) := []

namespace Server

def service (s : Server) : Service := s.timeline.processor

def withService (s : Server) (service : Service) : Server :=
  { s with timeline := { s.timeline with processor := service } }

/-! ## Reading -/

def health (s : Server) : Response :=
  let up := s.service.health.isOk
  .json (if up then 200 else 503) (.ofList (Json.writeObject [
    ("status", Json.Text.write (if up then "UP" else "DOWN")),
    ("storage", Json.Text.write OrderStore.name),
    ("cache", Json.Text.write s.service.cache.name),
    ("cached_orders", Json.writeInt s.service.cachedOrders)]))

def order (s : Server) (text : List Char) : Response × Server :=
  match Text.Utf8.decode? (percentDecode text) with
  | none => (.plain 400 "Invalid URL: Invalid UTF-8 in \x60id\x60", s)
  | some text =>
    match checkId (.ofList text) with
    | .error e => (.ofFailure (.badRequest e.message), s)
    | .ok id =>
      match s.service.get id with
      | (.ok o, service) => (.json 200 o.toJsonText, s.withService service)
      | (.error e, service) => (.ofOrderError e, s.withService service)

inductive QueryError where
  | limit (error : Decimal.IntegerError)
  | repeatedLimit
  deriving DecidableEq, Repr

def QueryError.text : QueryError → String
  | .limit e => s!"Failed to deserialize query string: limit: {e.text}"
  | .repeatedLimit => "Failed to deserialize query string: duplicate field \x60limit\x60"

/-- The limit that a query asks for; other names are passed over. -/
def queryLimit (found : Option Nat) : List (String × String) → Except QueryError (Option Nat)
  | [] => .ok found
  | (name, value) :: pairs =>
    if name = "limit" then
      match found with
      | some _ => .error .repeatedLimit
      | none =>
        match Decimal.readUnsigned (Nat.pow 2 64 - 1) value.toList with
        | .error e => .error (.limit e)
        | .ok n => queryLimit (some n) pairs
    else queryLimit found pairs

def orders (s : Server) (query : String) : Response :=
  match queryLimit none (formPairs query) with
  | .error e => .plain 400 e.text
  | .ok limit =>
    match s.service.last (clampLimit (limit.getD defaultLimit)) with
    | .error e => .ofOrderError e
    | .ok os => .json 200 (.ofList (Json.writeList (os.map Order.toJson)))

def deadLetters (s : Server) : Response :=
  let letters := if s.retainsLetters then s.timeline.link.sink.letters else []
  .json 200 (.ofList (Json.writeObject [
    ("retained", (if s.retainsLetters then "true" else "false").toList),
    ("count", Json.writeInt letters.length),
    ("letters", Json.writeList (letters.map DeadLetter.toJson))]))

def families (s : Server) : List Metrics.Family :=
  let answered := s.answered.map fun ((method, path, status), n) =>
    { labels := [("method", method), ("path", path), ("status", toString status)]
      value := toString n : Metrics.Series }
  let routes := s.answered.foldl
    (fun (t : Tally (String × String)) ((method, path, _), n) =>
      (List.replicate n (method, path)).foldl (fun t key => t.bump key) t) []
  let durations := routes.map fun ((method, path), n) =>
    { suffix := "_count", labels := [("method", method), ("path", path)]
      value := toString n : Metrics.Series }
  let source := s.timeline.pipeline.source
  [{ name := "orderflow_http_requests_total"
     description := "Total number of HTTP requests"
     kind := .counter
     series := answered },
   { name := "orderflow_http_request_duration_seconds"
     description := "HTTP request duration in seconds"
     kind := .summary
     series := durations }] ++
    s.service.cache.families ++ source.journal.families source.backlog.size

def metrics (s : Server) : Response :=
  .plain 200 ("\n".intercalate (Metrics.lines s.families))

/-! ## Publishing -/

/-- Publishes a payload; `none` when there was no room for `patience` milliseconds. -/
def publish (s : Server) (patience : Nat) (payload : Bytes) : Option Response × Server :=
  if payload.isEmpty then
    (some (.ofFailure (.badRequest "Request body cannot be empty")), s)
  else
    let (r, timeline) := s.timeline.publish serviceProcessor patience payload
    let response := match r with
      | .ok none => none
      | .ok (some offset) =>
        some (.json 202 (.ofList (Json.writeObject [("offset", Json.writeInt offset)])))
      | .error e => some (.ofFailure (.ofTransportError e))
    (response, { s with timeline })

/-! ## The cache -/

/-- Runs the scheduled fills; the pipeline goes on meanwhile. -/
def flush (s : Server) : Server :=
  if s.service.fills.isEmpty then s
  else { s with timeline := s.timeline.yield serviceProcessor }

/-- Puts the latest orders into the cache; the pipeline goes on meanwhile. -/
def warm (s : Server) (limit : Nat) : Except OrderError Nat × Server :=
  let (r, service) := s.service.warm limit
  let s := s.withService service
  match s.service.last limit with
  | .ok (_ :: _) => (r, { s with timeline := s.timeline.yield serviceProcessor })
  | _ => (r, s)

/-! ## Requests -/

/-- Answers a request on a route, by a method that the route allows. -/
def handleRoute (s : Server) (patience : Nat) (r : Request) :
    Route → Option Response × Server
  | .health => (some s.health, s)
  | .order text => let (response, s) := s.order text; (some response, s)
  | .orders =>
    if r.method = "POST" then s.publish patience r.body else (some (s.orders r.target.query), s)
  | .deadLetters => (some s.deadLetters, s)
  | .metrics => (some s.metrics, s)

/-- Answers a request and counts it; `none` when it was not answered within `patience`
milliseconds. -/
def handle (s : Server) (patience : Nat) (r : Request) : Option Response × Server :=
  let route := Route.ofTarget? r.target
  let (response, s) : Option Response × Server := match route with
    | none => (some .notFound, s)
    | some route =>
      if r.method ∈ route.methods then s.handleRoute patience r route
      else (some (.methodNotAllowed route), s)
  match response with
  | none => (none, s)
  | some response =>
    let path := (route.map Route.pattern).getD Route.unmatched
    let response := if r.method = "HEAD" then { response with body := "" } else response
    (some response,
      { s with answered := s.answered.bump (r.method, path, response.status) })

end Server

end OrderDesk.Http
