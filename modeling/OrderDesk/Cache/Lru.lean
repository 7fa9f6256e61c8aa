import Std.Data.HashMap
import OrderDesk.Cache.RecencyList

/-! # Cache of the recently used

At most `capacity` keys with their values. Reading or writing a key makes it the most recent
one; a new key that exceeds the capacity drives out the least recent one. A table holds the
values and, for each key, its handle in a recency list of the keys.

* `LruCache.new?`: an empty cache, for a capacity of at least one;
* `get`, `set`, `peek?`, `contains`, `remove`: the operations;
* `size`, `keys`: what can be seen. -/

namespace OrderDesk

/-- How the table and the list of a cache can disagree. -/
inductive Corruption where
  | entryWithoutNode (error : ListError)
  | keyWithoutEntry
  deriving DecidableEq, Repr

inductive CacheError where
  | zeroCapacity
  | list (error : ListError)
  | corrupted (cause : Corruption)
  deriving DecidableEq, Repr

def CacheError.text : CacheError → String
  | .zeroCapacity => "cache capacity must be at least 1"
  | .list e => s!"recency list error: {e.text}"
  | .corrupted (.entryWithoutNode e) =>
    s!"cache bookkeeping corrupted: entry without list node: {e.text}"
  | .corrupted .keyWithoutEntry => "cache bookkeeping corrupted: evicted list key has no entry"

structure LruEntry (β : Type) where
  value : β
  node : NodeId

structure LruCache (α β : Type) [BEq α] [Hashable α] where
  entries : Std.HashMap α (LruEntry β)
  recency : RecencyList α
  capacity : Nat

namespace LruCache

variable {α β : Type} [BEq α] [Hashable α]

def new? (capacity : Nat) : Except CacheError (LruCache α β) :=
  if capacity = 0 then .error .zeroCapacity
  else .ok { entries := ∅, recency := .empty, capacity }

/-- Makes the key of a handle the most recent one. -/
def touch (c : LruCache α β) (id : NodeId) : Except CacheError (RecencyList α) :=
  match c.recency.moveNodeToFront id with
  | .ok recency => .ok recency
  | .error e => .error (.corrupted (.entryWithoutNode e))

/-- The value of a key, which becomes the most recent one; a miss changes nothing. -/
def get (c : LruCache α β) (key : α) : Except CacheError (Option β × LruCache α β) :=
  match c.entries[key]? with
  | none => .ok (none, c)
  | some entry => do
    let recency ← c.touch entry.node
    pure (some entry.value, { c with recency })

/-- Writes a value and makes its key the most recent one. Gives the key that was driven out. -/
def set (c : LruCache α β) (key : α) (value : β) :
    Except CacheError (Option α × LruCache α β) :=
  match c.entries[key]? with
  | some entry => do
    let recency ← c.touch entry.node
    pure (none, { c with recency, entries := c.entries.insert key { entry with value } })
  | none =>
    match c.recency.pushFront key with
    | .error e => .error (.list e)
    | .ok (node, recency) =>
      let entries := c.entries.insert key { value, node }
      if entries.size ≤ c.capacity then .ok (none, { c with recency, entries })
      else
        match recency.removeLast with
        | .error e => .error (.list e)
        | .ok (evicted, recency) =>
          if entries.contains evicted then
            .ok (some evicted, { c with recency, entries := entries.erase evicted })
          else .error (.corrupted .keyWithoutEntry)

/-- The value of a key, without making it more recent. -/
def peek? (c : LruCache α β) (key : α) : Option β := c.entries[key]?.map (·.value)

def contains (c : LruCache α β) (key : α) : Bool := c.entries.contains key

def remove (c : LruCache α β) (key : α) : Except CacheError (Option β × LruCache α β) :=
  match c.entries[key]? with
  | none => .ok (none, c)
  | some entry =>
    match c.recency.removeNode entry.node with
    | .error e => .error (.corrupted (.entryWithoutNode e))
    | .ok (_, recency) =>
      .ok (some entry.value, { c with recency, entries := c.entries.erase key })

def size (c : LruCache α β) : Nat := c.entries.size

/-- The keys, the most recent one first. -/
def keys (c : LruCache α β) : List α := c.recency.toList

end LruCache

end OrderDesk
