/-! # Recently used pairs, as a list

The plain account of a cache of the recently used: a list of pairs with distinct keys, the most
recent one first, no longer than its capacity. A key stays as it was written first, whichever
equal key it is asked for by later. -/

namespace OrderDesk

/-- Pairs of keys and values, the most recent one first. -/
abbrev RecentPairs (α β : Type) := List (α × β)

namespace RecentPairs

variable {α β : Type} [BEq α]

def pair? (c : RecentPairs α β) (key : α) : Option (α × β) := c.find? (·.1 == key)

def drop (c : RecentPairs α β) (key : α) : RecentPairs α β := c.filter (fun p => !(p.1 == key))

def peek? (c : RecentPairs α β) (key : α) : Option β := (c.pair? key).map (·.2)

def contains (c : RecentPairs α β) (key : α) : Bool := (c.pair? key).isSome

/-- A hit moves the pair to the front, a miss changes nothing. -/
def get (c : RecentPairs α β) (key : α) : Option β × RecentPairs α β :=
  match c.pair? key with
  | some p => (some p.2, p :: drop c key)
  | none => (none, c)

/-- The pair moves or comes to the front. A new key that makes the list longer than `capacity`
drives out the last pair, whose key is given back. -/
def set (capacity : Nat) (c : RecentPairs α β) (key : α) (value : β) :
    Option α × RecentPairs α β :=
  match c.pair? key with
  | some p => (none, (p.1, value) :: drop c key)
  | none =>
    let c := (key, value) :: c
    if c.length ≤ capacity then (none, c)
    else (c.getLast?.map (·.1), c.dropLast)

/-- The pair goes, its value is given back. -/
def remove (c : RecentPairs α β) (key : α) : Option β × RecentPairs α β :=
  (c.peek? key, drop c key)

def keys (c : RecentPairs α β) : List α := c.map (·.1)

end RecentPairs

end OrderDesk
