import Std.Data.HashMap
import OrderDesk.Order.Error
import OrderDesk.Order.Basic

/-! # The store of orders

Orders by their identity; saving an order replaces the one with the same identity.

* `OrderStore.ofOrders`, `save`: writing;
* `find?`, `last`: reading one order, or the most recently created ones. -/

namespace OrderDesk

structure OrderStore where
  orders : Std.HashMap String Order

namespace OrderStore

def empty : OrderStore := ⟨∅⟩

instance : Inhabited OrderStore := ⟨empty⟩

def save (s : OrderStore) (o : Order) : OrderStore := ⟨s.orders.insert o.uid o⟩

def ofOrders (os : List Order) : OrderStore := os.foldl save empty

def name : String := "memory"

def size (s : OrderStore) : Nat := s.orders.size

def isEmpty (s : OrderStore) : Bool := s.orders.isEmpty

def find? (s : OrderStore) (uid : String) : Option Order := s.orders[uid]?

def fetch (s : OrderStore) (uid : String) : Except OrderError Order :=
  match s.find? uid with
  | some o => .ok o
  | none => .error (.notFound uid)

/-- Later orders come first, and lesser identities among those created at the same instant. -/
def newerFirst (a b : Order) : Bool :=
  match compare a.createdAt b.createdAt with
  | .gt => true
  | .lt => false
  | .eq => decide (a.uid ≤ b.uid)

/-- The orders, in some order. -/
def contents (s : OrderStore) : List Order := s.orders.toList.map (·.2)

def last (s : OrderStore) (limit : Nat) : List Order :=
  (s.contents.mergeSort newerFirst).take limit

end OrderStore

end OrderDesk
