import OrderDesk.Json.Record
import OrderDesk.Order.Basic

/-! # The wire form of orders

Orders travel as compact JSON objects. Each record is described once, by the names of its
members in order and the kinds of their values; reader and writer both follow it.

* `Order.ofBytes`: reads a payload;
* `Order.toJson`: the compact text of an order. -/

namespace OrderDesk

open Json

/-- A value of a member of an order or of one of its parts. -/
inductive Member where
  | text (s : String)
  | integer (n : Int64)
  | date (t : Timestamp)
  | delivery (d : Delivery)
  | payment (p : Payment)
  | items (xs : List Item)

namespace Member

def readText : Reader Member := fun s => (Json.readText s).map fun (v, s) => (.text v, s)

def readInteger : Reader Member := fun s => (Json.readInt64 s).map fun (v, s) => (.integer v, s)

def readDate : Reader Member := fun s => (Json.readTimestamp s).map fun (v, s) => (.date v, s)

end Member

def textField (name : String) : Json.Field Member := { name, read := Member.readText }

/-- A string member that is empty when missing. -/
def optionalField (name : String) : Json.Field Member :=
  { name, read := Member.readText, absent := some (.text "") }

def integerField (name : String) : Json.Field Member := { name, read := Member.readInteger }

namespace Delivery

def shape : Shape Member where
  name := "Delivery"
  fields := ["name", "phone", "zip", "city", "address", "region", "email"].map textField

def ofMembers : List Member → Option Delivery
  | [.text name, .text phone, .text zip, .text city, .text address, .text region,
      .text email] =>
    some { name, phone, zip, city, address, region, email }
  | _ => none

def read : Reader Delivery := shape.readAs ofMembers

def toJson (d : Delivery) : List Char :=
  writeObject [
    ("name", Text.write d.name),
    ("phone", Text.write d.phone),
    ("zip", Text.write d.zip),
    ("city", Text.write d.city),
    ("address", Text.write d.address),
    ("region", Text.write d.region),
    ("email", Text.write d.email)]

end Delivery

namespace Payment

def shape : Shape Member where
  name := "Payment"
  fields := [
    textField "transaction", optionalField "request_id", textField "currency",
    textField "provider", integerField "amount", integerField "payment_dt", textField "bank",
    integerField "delivery_cost", integerField "goods_total", integerField "custom_fee"]

def ofMembers : List Member → Option Payment
  | [.text transaction, .text requestId, .text currency, .text provider, .integer amount,
      .integer paidAt, .text bank, .integer deliveryCost, .integer goodsTotal,
      .integer customFee] =>
    some { transaction, requestId, currency, provider, amount, paidAt, bank, deliveryCost,
           goodsTotal, customFee }
  | _ => none

def read : Reader Payment := shape.readAs ofMembers

def toJson (p : Payment) : List Char :=
  writeObject [
    ("transaction", Text.write p.transaction),
    ("request_id", Text.write p.requestId),
    ("currency", Text.write p.currency),
    ("provider", Text.write p.provider),
    ("amount", writeInt p.amount.toInt),
    ("payment_dt", writeInt p.paidAt.toInt),
    ("bank", Text.write p.bank),
    ("delivery_cost", writeInt p.deliveryCost.toInt),
    ("goods_total", writeInt p.goodsTotal.toInt),
    ("custom_fee", writeInt p.customFee.toInt)]

end Payment

namespace Item

def shape : Shape Member where
  name := "Item"
  fields := [
    integerField "chrt_id", textField "track_number", integerField "price", textField "rid",
    textField "name", integerField "sale", textField "size", integerField "total_price",
    integerField "nm_id", textField "brand", integerField "status"]

def ofMembers : List Member → Option Item
  | [.integer chartId, .text trackNumber, .integer price, .text rid, .text name,
      .integer sale, .text size, .integer totalPrice, .integer nomenclatureId, .text brand,
      .integer status] =>
    some { chartId, trackNumber, price, rid, name, sale, size, totalPrice, nomenclatureId,
           brand, status }
  | _ => none

def read : Reader Item := shape.readAs ofMembers

def toJson (i : Item) : List Char :=
  writeObject [
    ("chrt_id", writeInt i.chartId.toInt),
    ("track_number", Text.write i.trackNumber),
    ("price", writeInt i.price.toInt),
    ("rid", Text.write i.rid),
    ("name", Text.write i.name),
    ("sale", writeInt i.sale.toInt),
    ("size", Text.write i.size),
    ("total_price", writeInt i.totalPrice.toInt),
    ("nm_id", writeInt i.nomenclatureId.toInt),
    ("brand", Text.write i.brand),
    ("status", writeInt i.status.toInt)]

end Item

namespace Order

def shape : Shape Member where
  name := "Order"
  fields := [
    textField "order_uid", textField "track_number", textField "entry",
    { name := "delivery", read := fun s => (Delivery.read s).map fun (v, s) => (.delivery v, s) },
    { name := "payment", read := fun s => (Payment.read s).map fun (v, s) => (.payment v, s) },
    { name := "items", read := fun s => (readList Item.read s).map fun (v, s) => (.items v, s) },
    textField "locale", optionalField "internal_signature", textField "customer_id",
    textField "delivery_service", textField "shardkey", integerField "sm_id",
    { name := "date_created", read := Member.readDate },
    textField "oof_shard"]

def ofMembers : List Member → Option Order
  | [.text uid, .text trackNumber, .text entry, .delivery delivery, .payment payment,
      .items items, .text locale, .text internalSignature, .text customerId,
      .text deliveryService, .text shardKey, .integer smId, .date createdAt,
      .text oofShard] =>
    some { uid, trackNumber, entry, delivery, payment, items, locale, internalSignature,
           customerId, deliveryService, shardKey, smId, createdAt, oofShard }
  | _ => none

def read : Reader Order := shape.readAs ofMembers

/-- Reads a payload that holds one order and nothing else. -/
def ofBytes (payload : Bytes) : Except Json.Error Order := Json.parse read payload

def toJson (o : Order) : List Char :=
  writeObject [
    ("order_uid", Text.write o.uid),
    ("track_number", Text.write o.trackNumber),
    ("entry", Text.write o.entry),
    ("delivery", o.delivery.toJson),
    ("payment", o.payment.toJson),
    ("items", writeList (o.items.map Item.toJson)),
    ("locale", Text.write o.locale),
    ("internal_signature", Text.write o.internalSignature),
    ("customer_id", Text.write o.customerId),
    ("delivery_service", Text.write o.deliveryService),
    ("shardkey", Text.write o.shardKey),
    ("sm_id", writeInt o.smId.toInt),
    ("date_created", Text.write o.createdAt.toText),
    ("oof_shard", Text.write o.oofShard)]

/-- The compact JSON text of an order. -/
def toJsonText (o : Order) : String := .ofList o.toJson

/-- The payload that carries an order. -/
def toBytes (o : Order) : Bytes := Text.Utf8.encode o.toJson

end Order

end OrderDesk
