import Mathlib.Data.List.Perm.Basic
import OrderDesk.Order.Wire
import OrderDesk.Proofs.Json.Record
import OrderDesk.Proofs.Time.Rfc3339

/-!
# Orders read back

The texts of an order: JSON objects with its members in any order, other members among them, white
space between the tokens, and without the members that are empty and may be missing
(`Order.Written`). Each of them is read as the order, and the compact form is one of them
(`Order.ofBytes_written`).
-/

namespace OrderDesk

open Json

/-! ## The members of an order and of its parts -/

def Delivery.members (d : Delivery) : List (String × Member) :=
  [("name", .text d.name), ("phone", .text d.phone), ("zip", .text d.zip),
    ("city", .text d.city), ("address", .text d.address), ("region", .text d.region),
    ("email", .text d.email)]

def Payment.members (p : Payment) : List (String × Member) :=
  [("transaction", .text p.transaction), ("request_id", .text p.requestId),
    ("currency", .text p.currency), ("provider", .text p.provider), ("amount", .integer p.amount),
    ("payment_dt", .integer p.paidAt), ("bank", .text p.bank),
    ("delivery_cost", .integer p.deliveryCost), ("goods_total", .integer p.goodsTotal),
    ("custom_fee", .integer p.customFee)]

def Item.members (i : Item) : List (String × Member) :=
  [("chrt_id", .integer i.chartId), ("track_number", .text i.trackNumber),
    ("price", .integer i.price), ("rid", .text i.rid), ("name", .text i.name),
    ("sale", .integer i.sale), ("size", .text i.size), ("total_price", .integer i.totalPrice),
    ("nm_id", .integer i.nomenclatureId), ("brand", .text i.brand), ("status", .integer i.status)]

def Order.members (o : Order) : List (String × Member) :=
  [("order_uid", .text o.uid), ("track_number", .text o.trackNumber), ("entry", .text o.entry),
    ("delivery", .delivery o.delivery), ("payment", .payment o.payment), ("items", .items o.items),
    ("locale", .text o.locale), ("internal_signature", .text o.internalSignature),
    ("customer_id", .text o.customerId), ("delivery_service", .text o.deliveryService),
    ("shardkey", .text o.shardKey), ("sm_id", .integer o.smId), ("date_created", .date o.createdAt),
    ("oof_shard", .text o.oofShard)]

/-- The members that may be left out. -/
def emptyMembers : List (String × Member) :=
  [("internal_signature", .text ""), ("request_id", .text "")]

/-! ## The texts of an order -/

namespace Member

/-- The text of a scalar: a string in any spelling, or a number in decimal. -/
inductive Plain : Member → Bytes → Prop
  | text {s : String} {bs : Bytes} (h : Text.Quoted bs s.toList) : Plain (.text s) bs
  | integer (n : Int64) : Plain (.integer n) (OrderDesk.Text.Utf8.encode (writeInt n.toInt))
  | date {t : Timestamp} {bs : Bytes} (h : Text.Quoted bs t.toText.toList) : Plain (.date t) bs

/-- The text of any member. The parts of an order may be written as freely as the order itself. -/
inductive Written : Member → Bytes → Prop
  | plain {m : Member} {bs : Bytes} (h : m.Plain bs) : Written m bs
  | delivery {d : Delivery} {bs : Bytes} (h : Record Plain emptyMembers d.members bs) :
      Written (.delivery d) bs
  | payment {p : Payment} {bs : Bytes} (h : Record Plain emptyMembers p.members bs) :
      Written (.payment p) bs
  | items {xs : List Item} {bs : Bytes}
      (h : Sequence (fun i => Record Plain emptyMembers i.members) xs bs) : Written (.items xs) bs

end Member

/-- The text of an order, with white space around it. -/
inductive Order.Written (o : Order) : Bytes → Prop
  | mk {a s b : Bytes} (ha : Blank a) (hs : Record Member.Written emptyMembers o.members s)
      (hb : Blank b) : Written o (a ++ (s ++ b))

/-! ## Reading members -/

namespace Member

/-- A member that is a date is one that exists. -/
def Valid : Member → Prop
  | .date t => t.Valid
  | _ => True

/-- A string or a number, as the parts of an order have them. -/
def Bare : Member → Prop
  | .text _ | .integer _ => True
  | _ => False

theorem Bare.valid {m : Member} (h : m.Bare) : m.Valid := by
  cases m with
  | date t => cases h
  | _ => trivial

end Member

theorem Delivery.bare_of_mem (d : Delivery) : ∀ x ∈ d.members, x.2.Bare := by
  simp [Delivery.members, Member.Bare]

theorem Payment.bare_of_mem (p : Payment) : ∀ x ∈ p.members, x.2.Bare := by
  simp [Payment.members, Member.Bare]

theorem Item.bare_of_mem (i : Item) : ∀ x ∈ i.members, x.2.Bare := by
  simp [Item.members, Member.Bare]

namespace Member

/-- The field that reads a member. -/
def field (x : String × Member) : Json.Field Member :=
  match x.2 with
  | .text _ =>
    if x.1 ∈ emptyMembers.map Prod.fst then optionalField x.1 else textField x.1
  | .integer _ => integerField x.1
  | .date _ => { name := x.1, read := readDate }
  | .delivery _ =>
    { name := x.1, read := fun s => (Delivery.read s).map fun (v, s) => (.delivery v, s) }
  | .payment _ =>
    { name := x.1, read := fun s => (Payment.read s).map fun (v, s) => (.payment v, s) }
  | .items _ =>
    { name := x.1, read := fun s => (readList Item.read s).map fun (v, s) => (.items v, s) }

theorem name_field (x : String × Member) : (field x).name = x.1 := by
  obtain ⟨name, m⟩ := x
  cases m with
  | text s =>
    simp only [field]
    split <;> rfl
  | _ => rfl

/-- A member that may be left out is what its field takes for a missing one. -/
theorem absent_field {x : String × Member} (hx : x ∈ emptyMembers) :
    (field x).absent = some x.2 := by
  simp only [emptyMembers, List.mem_cons, List.not_mem_nil, or_false] at hx
  rcases hx with rfl | rfl <;> rfl

/-- What a field reads as a plain member is read so whatever its name. -/
theorem Plain.reads {m : Member} {bs : Bytes} (h : m.Plain bs) (hm : m.Valid) (name : String) :
    Reads (field (name, m)).read bs m := by
  cases h with
  | @text s bs h =>
    have hread : (field (name, .text s)).read = readText := by
      simp only [field]
      split <;> rfl
    have htext : Reads Json.readText bs (.ofList s.toList) := h.reads _
    have hmember : Reads readText bs (.text (.ofList s.toList)) := htext.map Member.text
    rw [String.ofList_toList] at hmember
    rw [hread]
    exact hmember
  | integer n => exact (reads_writeInt n).map Member.integer
  | @date t bs h =>
    have htimestamp : Reads readTimestamp bs t := by
      intro a r ha hr
      rw [readTimestamp, h.reads _ ha hr, String.ofList_toList]
      simp only [hm.ofText_toText]
    exact htimestamp.map Member.date

theorem Plain.fits {x : String × Member} (hx : x.2.Valid) :
    (field x).Fits Plain emptyMembers x where
  name := name_field x
  read _ h := h.reads hx x.1
  absent := absent_field

/-- A record is read from any text with its members, if its fields are those of the members. -/
theorem reads_record {α : Type} {W : Member → Bytes → Prop} {ms : List (String × Member)}
    {shape : Shape Member} {build : List Member → Option α} {v : α} {bs : Bytes}
    (h : Record W emptyMembers ms bs) (hfields : shape.fields = ms.map field)
    (hfits : ∀ x ∈ ms, (field x).Fits W emptyMembers x) (hnodup : (ms.map Prod.fst).Nodup)
    (hbuild : build (ms.map Prod.snd) = some v) : Reads (shape.readAs build) bs v := by
  apply h.reads _ hnodup hbuild
  rw [hfields, List.forall₂_map_left_iff]
  exact List.forall₂_same.2 hfits

theorem reads_part {α : Type} {ms : List (String × Member)} {shape : Shape Member}
    {build : List Member → Option α} {v : α} {bs : Bytes} (h : Record Plain emptyMembers ms bs)
    (hfields : shape.fields = ms.map field) (hbare : ∀ x ∈ ms, x.2.Bare)
    (hnodup : (ms.map Prod.fst).Nodup) (hbuild : build (ms.map Prod.snd) = some v) :
    Reads (shape.readAs build) bs v :=
  reads_record h hfields (fun x hx => Plain.fits (hbare x hx).valid) hnodup hbuild

theorem reads_delivery {d : Delivery} {bs : Bytes} (h : Record Plain emptyMembers d.members bs) :
    Reads Delivery.read bs d :=
  reads_part h rfl d.bare_of_mem (by simp [Delivery.members]) rfl

theorem reads_payment {p : Payment} {bs : Bytes} (h : Record Plain emptyMembers p.members bs) :
    Reads Payment.read bs p :=
  reads_part h rfl p.bare_of_mem (by simp [Payment.members]) rfl

theorem reads_item {i : Item} {bs : Bytes} (h : Record Plain emptyMembers i.members bs) :
    Reads Item.read bs i :=
  reads_part h rfl i.bare_of_mem (by simp [Item.members]) rfl

theorem begins_item : Begins fun i : Item => Record Plain emptyMembers i.members := by
  intro i bs h
  obtain ⟨_⟩ := h
  exact ⟨_, _, rfl, by decide, by decide⟩

theorem Written.fits {x : String × Member} (hx : x.2.Valid) :
    (field x).Fits Written emptyMembers x where
  name := name_field x
  absent := absent_field
  read bs h := by
    obtain ⟨name, m⟩ := x
    cases h with
    | plain h => exact h.reads hx name
    | delivery h => exact (reads_delivery h).map Member.delivery
    | payment h => exact (reads_payment h).map Member.payment
    | items h =>
      have hitems := h.reads (fun i _ bs hi => reads_item hi) begins_item
      exact hitems.map Member.items

end Member

theorem Order.reads_record {o : Order} {bs : Bytes} (hdate : o.createdAt.Valid)
    (h : Record Member.Written emptyMembers o.members bs) : Reads Order.read bs o := by
  have hvalid : ∀ x ∈ o.members, x.2.Valid := by simp [Order.members, Member.Valid, hdate]
  have hnodup : (o.members.map Prod.fst).Nodup := by simp [Order.members]
  exact Member.reads_record h rfl (fun x hx => Member.Written.fits (hvalid x hx)) hnodup rfl

/-! ## The compact form -/

namespace Member

def toJson : Member → List Char
  | .text s => Text.write s
  | .integer n => writeInt n.toInt
  | .date t => Text.write t.toText
  | .delivery d => d.toJson
  | .payment p => p.toJson
  | .items xs => writeList (xs.map Item.toJson)

open OrderDesk.Text.Utf8 (encode)

theorem plain_toJson {m : Member} (h : m.Bare) : m.Plain (encode m.toJson) := by
  cases m with
  | text s => exact .text (Text.quoted_write s)
  | integer n => exact .integer n
  | _ => cases h

theorem plain_writeObject {ms : List (String × Member)} (h : ∀ x ∈ ms, x.2.Bare) :
    Record Plain emptyMembers ms (encode (writeObject (ms.map fun x => (x.1, x.2.toJson)))) :=
  record_writeObject emptyMembers fun x hx => plain_toJson (h x hx)

theorem items_toJson (xs : List Item) :
    Sequence (fun i : Item => Record Plain emptyMembers i.members) xs
      (encode (writeList (xs.map Item.toJson))) := by
  apply sequence_writeList
  intro i _
  exact plain_writeObject i.bare_of_mem

theorem written_toJson (m : Member) : m.Written (encode m.toJson) := by
  cases m with
  | text s => exact .plain (plain_toJson trivial)
  | integer n => exact .plain (plain_toJson trivial)
  | date t => exact .plain (.date (Text.quoted_write _))
  | delivery d => exact .delivery (plain_writeObject d.bare_of_mem)
  | payment p => exact .payment (plain_writeObject p.bare_of_mem)
  | items xs => exact .items (items_toJson xs)

end Member

theorem Order.toJson_eq (o : Order) :
    o.toJson = writeObject (o.members.map fun x => (x.1, x.2.toJson)) := rfl

/-- The compact form has its members in order, all of them, and no white space. -/
theorem Order.written_toBytes (o : Order) : o.Written o.toBytes := by
  have h : Record Member.Written emptyMembers o.members o.toBytes := by
    rw [Order.toBytes, Order.toJson_eq]
    exact record_writeObject emptyMembers fun x _ => x.2.written_toJson
  simpa using Order.Written.mk blank_nil h blank_nil

/-! ## Every text -/

theorem Order.Written.ofBytes {o : Order} {bs : Bytes} (h : o.Written bs)
    (hdate : o.createdAt.Valid) : Order.ofBytes bs = .ok o := by
  obtain ⟨ha, hs, hb⟩ := h
  exact (Order.reads_record hdate hs).parse ha hb

/-- An order whose date can be read comes back from its compact form, and from every other text of
it: one with white space between its tokens, with the members of each object in any order and
unknown ones among them, and without the members that are empty and may be missing. -/
theorem Order.ofBytes_written {o : Order}
    (hdate : ∃ text, Timestamp.ofText text = .ok o.createdAt) :
    Order.ofBytes o.toBytes = .ok o ∧ ∀ bs, o.Written bs → Order.ofBytes bs = .ok o := by
  obtain ⟨text, htext⟩ := hdate
  have hvalid := Timestamp.valid_of_ofText htext
  exact ⟨o.written_toBytes.ofBytes hvalid, fun bs h => h.ofBytes hvalid⟩

/-- A leap second, an unknown member, white space, the other members from the last to the first, and
none for the empty signature. -/
theorem Order.ofBytes_reversed :
    let o : Order := { (default : Order) with
      uid := "\u0001\\ 😀", smId := -9223372036854775808,
      createdAt := ⟨⟨2016, 12, 31⟩, 86399, 1000000007⟩ }
    let present := (o.members.eraseIdx 7).reverse
    Timestamp.ofText "2017-01-01T01:59:60.000000007+02:00" = .ok o.createdAt ∧
    Order.ofBytes o.toBytes = .ok o ∧
    Order.ofBytes ([0x0A] ++ (0x7B :: ([] ++ ((Text.Utf8.encode (Json.Text.write "extra") ++
      ([0x20] ++ [0x3A])) ++ ([0x0D] ++ (0x5B :: ([0x20] ++ [0x5D]) ++ ([] ++ 0x2C :: [0x09] ++
      (Text.Utf8.encode (writeMembers (present.map fun x => (x.1, x.2.toJson))) ++ [0x7D])))))) ++
      [0x20])) = .ok o := by
  intro o present
  have hdate : Timestamp.ofText "2017-01-01T01:59:60.000000007+02:00" = .ok o.createdAt := by
    decide +kernel
  obtain ⟨hcompact, hwritten⟩ := Order.ofBytes_written ⟨_, hdate⟩
  have hblank : ∀ b, isSpace b → Blank [b] := by simp [Blank]
  have hlabel : Label "extra" (Text.Utf8.encode (Json.Text.write "extra") ++ ([0x20] ++ [0x3A])) :=
    .mk (Text.quoted_write "extra") (hblank _ rfl)
  have hextra : WellFormed .value (0x5B :: ([0x20] ++ [0x5D])) := .empty .list (hblank _ rfl)
  have hpresent : Members Member.Written (o.members.map Prod.fst) false present _ :=
    members_writeMembers (fun x _ => x.2.written_toJson) (by decide)
      (.comma blank_nil (hblank 0x09 rfl))
  have hperm : (present ++ [("internal_signature", Member.text "")]).Perm o.members := by
    refine (List.perm_append_singleton _ _).trans ?_
    refine ((List.reverse_perm (o.members.eraseIdx 7)).cons _).trans ?_
    exact List.getElem_cons_eraseIdx_perm (show 7 < o.members.length by decide)
  have hrecord : Record Member.Written emptyMembers o.members _ :=
    .mk hperm (by simp [emptyMembers])
      (.unknown (.first blank_nil) hlabel (by decide) (hblank 0x0D rfl) hextra hpresent)
  exact ⟨hdate, hcompact, hwritten _ (.mk (hblank _ rfl) hrecord (hblank _ rfl))⟩

end OrderDesk
