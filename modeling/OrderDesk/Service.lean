import OrderDesk.Cache.OrderCache
import OrderDesk.Storage
import OrderDesk.Text.Quoted

/-! # Orders behind a cache

Lookups go to the cache first and to the store on a miss; writes go to the store. What was read
or written there is put into the cache later: a fill is scheduled and runs when there is time,
so a lookup before it still misses. Fills run in the order they were scheduled, and one that
fails is forgotten.

* `lookUp`, `fetch`, `write`, `schedule`, `runFill`: the single steps;
* `Service.get`, `save`, `last`, `warm`, `flush`: the operations made of them. -/

namespace OrderDesk

structure Service where
  store : OrderStore
  cache : OrderCache
  /-- The message with which every call of the store fails at present. -/
  outage : Option String := none
  /-- How often an order was looked up in the store. -/
  lookups : Nat := 0
  /-- The orders that are to be put into the cache, the next one first. -/
  fills : List Order := []

namespace Service

/-! ## Single steps -/

/-- The store answers, or fails while it is out. -/
def reach {α : Type} (s : Service) (answer : Except OrderError α) : Except OrderError α :=
  match s.outage with
  | some message => .error (.storage message)
  | none => answer

def lookUp (s : Service) (uid : String) : Except OrderError (Option Order) × Service :=
  let (r, cache) := s.cache.get uid
  (r, { s with cache })

def fetch (s : Service) (uid : String) : Except OrderError Order × Service :=
  (s.reach (s.store.fetch uid), { s with lookups := s.lookups + 1 })

def write (s : Service) (o : Order) : Except OrderError Unit × Service :=
  match s.reach (.ok ()) with
  | .error e => (.error e, s)
  | .ok () => (.ok (), { s with store := s.store.save o })

/-- Has an order put into the cache later. -/
def schedule (s : Service) (o : Order) : Service := { s with fills := s.fills ++ [o] }

def insert (s : Service) (o : Order) : Except OrderError Unit × Service :=
  let (r, cache) := s.cache.set o
  (r, { s with cache })

def runFill (s : Service) : Service :=
  match s.fills with
  | [] => s
  | o :: rest => (({ s with fills := rest } : Service).insert o).2

/-! ## Operations -/

def get (s : Service) (uid : String) : Except OrderError Order × Service :=
  if uid.isEmpty then (.error (.validation ⟨"order_uid", "is required"⟩), s)
  else
    match s.lookUp uid with
    | (.error e, s) => (.error e, s)
    | (.ok (some o), s) => (.ok o, s)
    | (.ok none, s) =>
      match s.fetch uid with
      | (.error e, s) => (.error e, s)
      | (.ok o, s) => (.ok o, s.schedule o)

def save (s : Service) (o : Order) : Except OrderError Unit × Service :=
  match s.write o with
  | (.error e, s) => (.error e, s)
  | (.ok (), s) => (.ok (), s.schedule o)

def last (s : Service) (limit : Nat) : Except OrderError (List Order) :=
  s.reach (.ok (s.store.last limit))

def health (s : Service) : Except OrderError Unit := s.reach (.ok ())

def flush (s : Service) : Service := s.fills.foldl (fun s _ => s.runFill) s

/-- Puts orders into the cache, one after the other, and gives the first failure. -/
def insertAll (s : Service) : List Order → Except OrderError Unit × Service
  | [] => (.ok (), s)
  | o :: os =>
    let (r, s) := s.insert o
    let (rs, s) := insertAll s os
    (r.bind fun () => rs, s)

/-- Puts the `limit` most recently created orders into the cache, the latest one first, and
gives their number. When there are any, the scheduled fills run before. -/
def warm (s : Service) (limit : Nat) : Except OrderError Nat × Service :=
  match s.last limit with
  | .error e => (.error e, s)
  | .ok [] => (.ok 0, s)
  | .ok os =>
    let (r, s) := s.flush.insertAll os
    (r.map fun () => os.length, s)

def pendingFills (s : Service) : Nat := s.fills.length

def cachedOrders (s : Service) : Nat := s.cache.size

def text (s : Service) : String :=
  "OrderService \x7b storage: " ++ Text.quoted OrderStore.name ++
    ", cache: " ++ Text.quoted s.cache.name ++ " \x7d"

end Service

end OrderDesk
