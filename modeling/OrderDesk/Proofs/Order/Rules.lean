import OrderDesk.Proofs.Order.Address
import OrderDesk.Proofs.Order.Validation

/-!
# The rules of an order

The rules are a list, in the order in which they are checked: those of the header, of the delivery,
of the payment, and of the items by their position (`Order.rules`). Validation decides them: an
order is accepted iff every rule holds, and otherwise the first broken one is reported with the path
of its field (`Order.validate_decides`).
-/

namespace OrderDesk

/-- What has to hold of a field, and what is reported if it does not. -/
structure Rule where
  field : String
  message : String
  Holds : Prop

namespace Rule

/-- The text is not blank. -/
def required (field value : String) : Rule where
  field := field
  message := "is required"
  Holds := ∃ c ∈ value.toList, ¬Text.isBlank c

def nonNegative (field : String) (value : Int64) : Rule where
  field := field
  message := "must be non-negative"
  Holds := 0 ≤ value.toInt

def positive (field : String) (value : Int64) : Rule where
  field := field
  message := "must be positive"
  Holds := 0 < value.toInt

/-- The text is an address, with blanks around it or not. -/
def email (field value : String) : Rule where
  field := field
  message := "has invalid format"
  Holds := ∃ before address after user parts, value.toList = before ++ address ++ after ∧
    (∀ c ∈ before, Text.isBlank c) ∧ (∀ c ∈ after, Text.isBlank c) ∧
    Validation.Address address user parts

/-- The rule of a part, for the record that holds it as `parent`. -/
def within (parent : String) (r : Rule) : Rule := { r with field := s!"{parent}.{r.field}" }

def violation (r : Rule) : ValidationError := ⟨r.field, r.message⟩

end Rule

/-- The violation of the first of the rules that does not hold. -/
inductive FirstBroken : List Rule → ValidationError → Prop
  | here {r : Rule} {rs : List Rule} (broken : ¬r.Holds) : FirstBroken (r :: rs) r.violation
  | later {r : Rule} {rs : List Rule} {e : ValidationError} (holds : r.Holds)
      (rest : FirstBroken rs e) : FirstBroken (r :: rs) e

/-! ## The rules -/

def Delivery.rules (d : Delivery) : List Rule :=
  [.required "name" d.name, .required "phone" d.phone, .required "zip" d.zip,
    .required "city" d.city, .required "address" d.address, .required "region" d.region,
    .required "email" d.email, .email "email" d.email]

def Payment.rules (p : Payment) : List Rule :=
  [.required "transaction" p.transaction, .required "currency" p.currency,
    .required "provider" p.provider, .nonNegative "amount" p.amount,
    .positive "payment_dt" p.paidAt, .required "bank" p.bank,
    .nonNegative "delivery_cost" p.deliveryCost, .nonNegative "goods_total" p.goodsTotal,
    .nonNegative "custom_fee" p.customFee]

def Item.rules (i : Item) : List Rule :=
  [.positive "chrt_id" i.chartId, .required "track_number" i.trackNumber,
    .nonNegative "price" i.price, .required "rid" i.rid, .required "name" i.name,
    ⟨"sale", "must be between 0 and 100", 0 ≤ i.sale.toInt ∧ i.sale.toInt ≤ 100⟩,
    .required "size" i.size, .nonNegative "total_price" i.totalPrice,
    .positive "nm_id" i.nomenclatureId, .required "brand" i.brand, .nonNegative "status" i.status]

namespace Order

def headerRules (o : Order) (now : Timestamp) : List Rule :=
  [⟨"order_uid", "is required", o.uid ≠ ""⟩, .required "track_number" o.trackNumber,
    .required "entry" o.entry, .required "locale" o.locale, .required "customer_id" o.customerId,
    .required "delivery_service" o.deliveryService, .required "shardkey" o.shardKey,
    .nonNegative "sm_id" o.smId,
    ⟨"date_created", "cannot be in the future", o.createdAt.le now⟩,
    .required "oof_shard" o.oofShard]

/-- The rules of everything but the items. -/
def headRules (o : Order) (now : Timestamp) : List Rule :=
  o.headerRules now ++ o.delivery.rules.map (.within "delivery") ++
    o.payment.rules.map (.within "payment")

/-- The rules of the items, the first of which has the position `start`. -/
def itemRules (items : List Item) (start : Nat) : List Rule :=
  (items.zipIdx start).flatMap fun (i, k) => i.rules.map (.within s!"items[{k}]")

def rules (o : Order) (now : Timestamp) : List Rule :=
  o.headRules now ++
    ⟨"items", "at least one item is required", o.items ≠ []⟩ :: itemRules o.items 0

end Order

/-! ## The first broken rule -/

section
variable {r : Rule} {rs rs' : List Rule} {e : ValidationError} {parent : String}

theorem FirstBroken.exists_broken (h : FirstBroken rs e) : ∃ r ∈ rs, ¬r.Holds := by
  induction h with
  | here broken => exact ⟨_, List.mem_cons_self, broken⟩
  | later _ _ ih =>
    obtain ⟨r, hr, broken⟩ := ih
    exact ⟨r, List.mem_cons_of_mem _ hr, broken⟩

theorem FirstBroken.append (h : FirstBroken rs e) : FirstBroken (rs ++ rs') e := by
  induction h with
  | here broken => exact .here broken
  | later holds _ ih => exact .later holds ih

theorem FirstBroken.append_left (holds : ∀ r ∈ rs, r.Holds) (h : FirstBroken rs' e) :
    FirstBroken (rs ++ rs') e := by
  induction rs with
  | nil => exact h
  | cons r rs ih =>
    exact .later (holds r List.mem_cons_self) (ih fun q hq => holds q (List.mem_cons_of_mem _ hq))

/-- Rules after others come into it only if those hold. -/
theorem firstBroken_append :
    FirstBroken (rs ++ rs') e ↔ FirstBroken rs e ∨ (∀ r ∈ rs, r.Holds) ∧ FirstBroken rs' e := by
  refine ⟨fun h => ?_, fun h => h.elim .append fun h => .append_left h.1 h.2⟩
  induction rs with
  | nil => exact .inr ⟨by simp, h⟩
  | cons r rs ih =>
    cases h with
    | here broken => exact .inl (.here broken)
    | later holds rest =>
      rcases ih rest with h | ⟨hrs, h⟩
      · exact .inl (.later holds h)
      · exact .inr ⟨List.forall_mem_cons.2 ⟨holds, hrs⟩, h⟩

theorem firstBroken_append_of_holds (holds : ∀ r ∈ rs, r.Holds) :
    FirstBroken (rs ++ rs') e ↔ FirstBroken rs' e := by
  refine ⟨fun h => ?_, .append_left holds⟩
  rcases firstBroken_append.1 h with h | ⟨-, h⟩
  · obtain ⟨r, hr, broken⟩ := h.exists_broken
    exact absurd (holds r hr) broken
  · exact h

theorem firstBroken_within :
    FirstBroken (rs.map (Rule.within parent)) e ↔ ∃ b, FirstBroken rs b ∧ e = b.within parent := by
  constructor
  · intro h
    induction rs with
    | nil => cases h
    | cons r rs ih =>
      cases h with
      | here broken => exact ⟨_, .here broken, rfl⟩
      | later holds rest =>
        obtain ⟨b, hb, rfl⟩ := ih rest
        exact ⟨b, .later holds hb, rfl⟩
  · rintro ⟨b, hb, rfl⟩
    induction hb with
    | here broken => exact .here broken
    | later holds _ ih => exact .later holds ih

end

/-! ## Checks -/

/-- The check passes iff all of the rules hold, and fails with the violation of the first broken
one. -/
structure Decides (check : Validation.Check) (rules : List Rule) : Prop where
  accepts : check = .ok () ↔ ∀ r ∈ rules, r.Holds
  rejects : ∀ e, check = .error e ↔ FirstBroken rules e

namespace Decides

open Validation

variable {check : Check} {next : Unit → Check} {rs rs' : List Rule}

theorem nil : Decides (.ok ()) [] where
  accepts := ⟨fun _ _ h => absurd h List.not_mem_nil, fun _ => rfl⟩
  rejects _ := ⟨fun h => (nomatch h), fun h => (nomatch h)⟩

theorem require {holds : Bool} {field message : String} {Holds : Prop} (h : holds ↔ Holds) :
    Decides (require holds field message) [⟨field, message, Holds⟩] where
  accepts := by rw [require_eq_ok, h, List.forall_mem_singleton]
  rejects e := by
    cases holds with
    | true =>
      refine ⟨fun he => (nomatch he), fun he => ?_⟩
      obtain ⟨r, hr, broken⟩ := he.exists_broken
      rw [List.mem_singleton.1 hr] at broken
      exact absurd (h.1 rfl) broken
    | false =>
      have broken : ¬Holds := fun hr => Bool.false_ne_true (h.2 hr)
      constructor
      · intro he
        cases he
        exact .here broken
      · intro he
        cases he with
        | here _ => rfl
        | later holds _ => exact absurd holds broken

/-- Checks one after the other, as their rules. -/
theorem append (h : Decides check rs) (h' : Decides (next ()) rs') :
    Decides (check >>= next) (rs ++ rs') where
  accepts := by rw [bind_eq_ok, h.accepts, h'.accepts, List.forall_mem_append]
  rejects e := by
    rw [firstBroken_append, ← h.rejects, ← h.accepts, ← h'.rejects]
    cases check <;> simp [bind, Except.bind]

theorem within (h : Decides check rs) (parent : String) :
    Decides (within parent check) (rs.map (.within parent)) where
  accepts := by
    have hrules : (∀ r ∈ rs.map (Rule.within parent), r.Holds) ↔ ∀ r ∈ rs, r.Holds := by
      rw [List.forall_mem_map]
      rfl
    rw [hrules, ← h.accepts]
    cases check <;> simp [Validation.within]
  rejects e := by
    simp only [firstBroken_within, ← h.rejects]
    cases check <;> simp [Validation.within, eq_comm]

theorem required (field value : String) :
    Decides (required field value) [.required field value] :=
  .require (Text.allBlank_eq_false_iff value)

theorem nonNegative (field : String) (value : Int64) :
    Decides (nonNegative field value) [.nonNegative field value] := by
  refine .require ?_
  rw [decide_eq_true_iff, Int64.le_iff_toInt_le]
  rfl

theorem positive (field : String) (value : Int64) :
    Decides (positive field value) [.positive field value] := by
  refine .require ?_
  rw [decide_eq_true_iff, Int64.lt_iff_toInt_lt]
  rfl

/-! ### The checks of an order -/

theorem header (o : Order) (now : Timestamp) : Decides (header o now) (o.headerRules now) := by
  have huid : (!o.uid.isEmpty) = true ↔ o.uid ≠ "" := by
    rw [Bool.not_eq_true', ← Bool.not_eq_true, String.isEmpty_iff]
  exact (require huid).append <| (required _ _).append <| (required _ _).append <|
    (required _ _).append <| (required _ _).append <| (required _ _).append <|
    (required _ _).append <| (nonNegative _ _).append <| (require Iff.rfl).append <|
    required _ _

theorem delivery (d : Delivery) : Decides (delivery d) d.rules := by
  have hemail := isEmail_trim_iff d.email.toList
  exact (required _ _).append <| (required _ _).append <| (required _ _).append <|
    (required _ _).append <| (required _ _).append <| (required _ _).append <|
    (required _ _).append <| require hemail

theorem payment (p : Payment) : Decides (payment p) p.rules :=
  (required _ _).append <| (required _ _).append <| (required _ _).append <|
    (nonNegative _ _).append <| (positive _ _).append <| (required _ _).append <|
    (nonNegative _ _).append <| (nonNegative _ _).append <| nonNegative _ _

theorem item (i : Item) : Decides (item i) i.rules := by
  have hsale : (decide (0 ≤ i.sale) && decide (i.sale ≤ 100)) = true ↔
      0 ≤ i.sale.toInt ∧ i.sale.toInt ≤ 100 := by
    rw [Bool.and_eq_true, decide_eq_true_iff, decide_eq_true_iff, Int64.le_iff_toInt_le,
      Int64.le_iff_toInt_le]
    rfl
  exact (positive _ _).append <| (required _ _).append <| (nonNegative _ _).append <|
    (required _ _).append <| (required _ _).append <| (require hsale).append <|
    (required _ _).append <| (nonNegative _ _).append <| (positive _ _).append <|
    (required _ _).append <| nonNegative _ _

theorem itemsFrom (items : List Item) (start : Nat) :
    Decides (itemsFrom start items) (Order.itemRules items start) := by
  induction items generalizing start with
  | nil => exact .nil
  | cons i items ih => exact ((item i).within _).append (ih (start + 1))

theorem items (is : List Item) : Decides (items is)
    (⟨"items", "at least one item is required", is ≠ []⟩ :: Order.itemRules is 0) := by
  have his : (!is.isEmpty) = true ↔ is ≠ [] := by
    rw [Bool.not_eq_true', List.isEmpty_eq_false_iff]
  exact (require his).append (itemsFrom is 0)

theorem validate (o : Order) (now : Timestamp) : Decides (o.validate now) (o.rules now) := by
  rw [Order.rules, Order.headRules, List.append_assoc, List.append_assoc]
  exact (header o now).append <| ((delivery o.delivery).within _).append <|
    ((payment o.payment).within _).append <| items o.items

end Decides

/-! ## Orders -/

/-- The first broken rule of the items is that of the first bad one. -/
theorem firstBroken_itemRules {is : List Item} {start : Nat} {e : ValidationError} :
    FirstBroken (Order.itemRules is start) e ↔ ∃ k i b, is[k]? = some i ∧
      (∀ j < k, ∀ i', is[j]? = some i' → ∀ r ∈ i'.rules, r.Holds) ∧
      FirstBroken i.rules b ∧ e = b.within s!"items[{start + k}]" := by
  induction is generalizing start with
  | nil =>
    refine iff_of_false (fun h => nomatch h) ?_
    rintro ⟨k, i, b, hi, -⟩
    cases hi
  | cons i is ih =>
    have hcons : Order.itemRules (i :: is) start =
        i.rules.map (.within s!"items[{start}]") ++ Order.itemRules is (start + 1) := rfl
    rw [hcons, firstBroken_append, firstBroken_within, ih]
    constructor
    · rintro (⟨b, hb, rfl⟩ | ⟨hgood, k, i', b, hi', hbefore, hb, rfl⟩)
      · exact ⟨0, i, b, rfl, fun j hj => absurd hj (Nat.not_lt_zero j), hb, rfl⟩
      · refine ⟨k + 1, i', b, hi', fun j hj i'' hi'' => ?_, hb, ?_⟩
        · cases j with
          | zero =>
            obtain rfl := Option.some.inj hi''
            rw [List.forall_mem_map] at hgood
            exact hgood
          | succ j => exact hbefore j (Nat.lt_of_succ_lt_succ hj) i'' hi''
        · rw [Nat.add_right_comm, Nat.add_assoc]
    · rintro ⟨k, i', b, hi', hbefore, hb, rfl⟩
      cases k with
      | zero =>
        obtain rfl := Option.some.inj hi'
        exact .inl ⟨b, hb, rfl⟩
      | succ k =>
        refine .inr ⟨?_, k, i', b, hi', fun j hj i'' => hbefore (j + 1) (by omega) i'', hb, ?_⟩
        · rw [List.forall_mem_map]
          exact hbefore 0 (Nat.succ_pos k) i rfl
        · rw [Nat.add_right_comm, Nat.add_assoc]

/-- An item that keeps every rule but that of its discount. -/
def Item.discounted (sale : Int64) : Item :=
  { (default : Item) with
    chartId := 1, trackNumber := "T", rid := "r", name := "n", sale, size := "0"
    nomenclatureId := 1, brand := "b" }

namespace Order

/-- **Validation decides the rules**: an order is accepted iff all of them hold. Otherwise it is
rejected with the violation of the first broken one, which is, if nothing else is broken, one of the
first bad item, under the position of that item. What is accepted once is accepted later. -/
theorem validate_decides (o : Order) (now : Timestamp) :
    (o.validate now = .ok () ↔ ∀ r ∈ o.rules now, r.Holds) ∧
    (∀ e, o.validate now = .error e ↔ FirstBroken (o.rules now) e) ∧
    ((∀ r ∈ o.headRules now, r.Holds) → o.items ≠ [] → ∀ e, o.validate now = .error e ↔
      ∃ (k : Nat) (i : Item) (b : ValidationError), o.items[k]? = some i ∧
        (∀ j < k, ∀ i', o.items[j]? = some i' → ∀ r ∈ i'.rules, r.Holds) ∧
        FirstBroken i.rules b ∧ e = b.within s!"items[{k}]") ∧
    ∀ later, now.le later → o.validate now = .ok () → o.validate later = .ok () := by
  have h := Decides.validate o now
  refine ⟨h.accepts, h.rejects, fun hhead hitems e => ?_, fun later hle hok =>
    validate_mono hok hle⟩
  have hsome : ∀ r ∈ [(⟨"items", "at least one item is required", o.items ≠ []⟩ : Rule)],
      r.Holds := List.forall_mem_singleton.2 hitems
  rw [h.rejects, rules, firstBroken_append_of_holds hhead, ← List.singleton_append,
    firstBroken_append_of_holds hsome, firstBroken_itemRules]
  simp only [Nat.zero_add]

/-- An order that keeps every rule but those of its items. -/
def holding (items : List Item) : Order where
  uid := " "
  trackNumber := "T"
  entry := "W"
  delivery := ⟨"N", "+1", "1", "C", "A", "R", "\u3000n@mail.com "⟩
  payment := { (default : Payment) with
    transaction := "t", currency := "USD", provider := "p", paidAt := 1, bank := "b" }
  items
  locale := "en"
  internalSignature := ""
  customerId := "c"
  deliveryService := "d"
  shardKey := "9"
  smId := 0
  createdAt := ⟨⟨2021, 11, 26⟩, 22919, 0⟩
  oofShard := "1"

/-- An order is accepted when it is created and later. With a second item of too high a discount it
is not. -/
theorem validate_second_item :
    Timestamp.le ⟨⟨2021, 11, 26⟩, 22919, 0⟩ ⟨⟨2022, 1, 1⟩, 0, 0⟩ ∧
    (holding [.discounted 100]).validate ⟨⟨2021, 11, 26⟩, 22919, 0⟩ = .ok () ∧
    (holding [.discounted 100]).validate ⟨⟨2022, 1, 1⟩, 0, 0⟩ = .ok () ∧
    (∀ r ∈ (holding [.discounted 100, .discounted 101]).headRules ⟨⟨2021, 11, 26⟩, 22919, 0⟩,
      r.Holds) ∧
    (holding [.discounted 100, .discounted 101]).items ≠ [] ∧
    (holding [.discounted 100, .discounted 101]).validate ⟨⟨2021, 11, 26⟩, 22919, 0⟩ =
      .error ⟨"items[1].sale", "must be between 0 and 100"⟩ := by
  have hle : Timestamp.le ⟨⟨2021, 11, 26⟩, 22919, 0⟩ ⟨⟨2022, 1, 1⟩, 0, 0⟩ := by decide
  have hok : (holding [.discounted 100]).validate ⟨⟨2021, 11, 26⟩, 22919, 0⟩ = .ok () := by rfl
  obtain ⟨haccepts, -, -, hlater⟩ := validate_decides (holding [.discounted 100])
    ⟨⟨2021, 11, 26⟩, 22919, 0⟩
  have hrules := haccepts.1 hok
  have hhead : ∀ r ∈ (holding [.discounted 100, .discounted 101]).headRules
      ⟨⟨2021, 11, 26⟩, 22919, 0⟩, r.Holds := fun r hr => hrules r (List.mem_append_left _ hr)
  have hgood : ∀ r ∈ (Item.discounted 100).rules, r.Holds := (Decides.item _).accepts.1 (by rfl)
  have hbad : FirstBroken (Item.discounted 101).rules ⟨"sale", "must be between 0 and 100"⟩ :=
    ((Decides.item _).rejects _).1 (by rfl)
  obtain ⟨-, -, hitems, -⟩ := validate_decides (holding [.discounted 100, .discounted 101])
    ⟨⟨2021, 11, 26⟩, 22919, 0⟩
  refine ⟨hle, hok, hlater _ hle hok, hhead, List.cons_ne_nil _ _,
    (hitems hhead (List.cons_ne_nil _ _) _).2 ⟨1, .discounted 101, _, rfl, ?_, hbad, rfl⟩⟩
  intro j hj i hi
  obtain rfl := Nat.lt_one_iff.1 hj
  obtain rfl := Option.some.inj hi
  exact hgood

end Order

end OrderDesk
