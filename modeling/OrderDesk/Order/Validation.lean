import OrderDesk.Order.Basic
import OrderDesk.Text.Blank

/-! # Order validation

The rules an order has to keep before it is processed. They are checked field by field, header
first, then delivery, payment and the lines; the first violation is reported with the path of
its field.

* `ValidationError`: a field path and the rule it breaks;
* `Order.validate`: checks an order against the current time. -/

namespace OrderDesk

structure ValidationError where
  /-- Dotted path of the field, such as `items[2].sale`. -/
  field : String
  message : String
  deriving DecidableEq, Repr

namespace ValidationError

def text (e : ValidationError) : String := s!"{e.field} {e.message}"

/-- The same violation, seen from the record that holds `parent`. -/
def within (parent : String) (e : ValidationError) : ValidationError :=
  { e with field := s!"{parent}.{e.field}" }

end ValidationError

namespace Validation

abbrev Check := Except ValidationError Unit

def require (holds : Bool) (field message : String) : Check :=
  if holds then .ok () else .error ⟨field, message⟩

def required (field value : String) : Check :=
  require (!Text.allBlank value) field "is required"

def nonNegative (field : String) (value : Int64) : Check :=
  require (0 ≤ value) field "must be non-negative"

def positive (field : String) (value : Int64) : Check :=
  require (0 < value) field "must be positive"

/-- The violations of a part are those of the whole under its name. -/
def within (parent : String) (check : Check) : Check :=
  match check with
  | .ok () => .ok ()
  | .error e => .error (e.within parent)

/-- The parts of a text between dots. -/
def labels (s : List Char) : List (List Char) :=
  s.foldr (fun c parts =>
    if c = '.' then [] :: parts
    else
      match parts with
      | [] => [[c]]
      | part :: parts => (c :: part) :: parts) [[]]

/-- One `@`, something before it, no blanks, and a domain of two or more non-empty labels. -/
def isEmail (s : List Char) : Bool :=
  let user := s.takeWhile (· ≠ '@')
  match s.dropWhile (· ≠ '@') with
  | [] => false
  | _ :: domain =>
    !user.isEmpty && !domain.contains '@' && !s.any Text.isBlank &&
      domain.contains '.' && (labels domain).all (!·.isEmpty)

def header (o : Order) (now : Timestamp) : Check := do
  -- Blanks count in the identity of an order, so the uid is not trimmed.
  require (!o.uid.isEmpty) "order_uid" "is required"
  required "track_number" o.trackNumber
  required "entry" o.entry
  required "locale" o.locale
  required "customer_id" o.customerId
  required "delivery_service" o.deliveryService
  required "shardkey" o.shardKey
  nonNegative "sm_id" o.smId
  require (o.createdAt.le now) "date_created" "cannot be in the future"
  required "oof_shard" o.oofShard

def delivery (d : Delivery) : Check := do
  required "name" d.name
  required "phone" d.phone
  required "zip" d.zip
  required "city" d.city
  required "address" d.address
  required "region" d.region
  required "email" d.email
  require (isEmail (Text.trim d.email.toList)) "email" "has invalid format"

def payment (p : Payment) : Check := do
  required "transaction" p.transaction
  required "currency" p.currency
  required "provider" p.provider
  nonNegative "amount" p.amount
  positive "payment_dt" p.paidAt
  required "bank" p.bank
  nonNegative "delivery_cost" p.deliveryCost
  nonNegative "goods_total" p.goodsTotal
  nonNegative "custom_fee" p.customFee

def item (i : Item) : Check := do
  positive "chrt_id" i.chartId
  required "track_number" i.trackNumber
  nonNegative "price" i.price
  required "rid" i.rid
  required "name" i.name
  require (0 ≤ i.sale && i.sale ≤ 100) "sale" "must be between 0 and 100"
  required "size" i.size
  nonNegative "total_price" i.totalPrice
  positive "nm_id" i.nomenclatureId
  required "brand" i.brand
  nonNegative "status" i.status

def itemsFrom (index : Nat) : List Item → Check
  | [] => .ok ()
  | i :: is => do
    within s!"items[{index}]" (item i)
    itemsFrom (index + 1) is

def items (is : List Item) : Check := do
  require (!is.isEmpty) "items" "at least one item is required"
  itemsFrom 0 is

end Validation

def Order.validate (o : Order) (now : Timestamp) : Except ValidationError Unit := do
  Validation.header o now
  Validation.within "delivery" (Validation.delivery o.delivery)
  Validation.within "payment" (Validation.payment o.payment)
  Validation.items o.items

end OrderDesk
