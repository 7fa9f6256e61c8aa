import OrderDesk.Time.Timestamp

/-! # Orders

An order with its recipient, payment and lines, as it is queued and served. Numbers are 64 bit
integers with a sign, amounts are in minor currency units. -/

namespace OrderDesk

/-- Recipient and address. -/
structure Delivery where
  name : String
  phone : String
  zip : String
  city : String
  address : String
  region : String
  email : String
  deriving DecidableEq, Repr, Inhabited

structure Payment where
  transaction : String
  requestId : String
  currency : String
  provider : String
  amount : Int64
  /-- When the payment was made, in Unix seconds. -/
  paidAt : Int64
  bank : String
  deliveryCost : Int64
  goodsTotal : Int64
  customFee : Int64
  deriving DecidableEq, Repr, Inhabited

structure Item where
  chartId : Int64
  trackNumber : String
  price : Int64
  rid : String
  name : String
  /-- The discount in percent. -/
  sale : Int64
  size : String
  totalPrice : Int64
  nomenclatureId : Int64
  brand : String
  status : Int64
  deriving DecidableEq, Repr, Inhabited

structure Order where
  /-- The identity of the order, in the store and in the cache. -/
  uid : String
  trackNumber : String
  entry : String
  delivery : Delivery
  payment : Payment
  items : List Item
  locale : String
  internalSignature : String
  customerId : String
  deliveryService : String
  shardKey : String
  smId : Int64
  createdAt : Timestamp
  oofShard : String
  deriving DecidableEq, Repr, Inhabited

def Order.itemsTotal (o : Order) : Int := (o.items.map (·.totalPrice.toInt)).foldr (· + ·) 0

end OrderDesk
