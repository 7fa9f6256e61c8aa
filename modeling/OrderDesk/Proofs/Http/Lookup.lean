import OrderDesk.Http.Server
import OrderDesk.Proofs.Http.Path
import OrderDesk.Proofs.Order.Validation
import OrderDesk.Proofs.Service.Lookups

/-!
# Orders asked for over HTTP

An order that passed validation and was saved is found under its identity, written in any way into
the path of a request (`Server.handle_saved`), if the identity is one that requests may ask for.
Requests may ask for less than validation accepts: an id has at most `maxIdBytes` bytes and no
control characters (`checkId_eq`), and `control_refused` is an order for which that makes a
difference.
-/

namespace OrderDesk

theorem Order.uid_ne_of_validate {o : Order} {now : Timestamp} (h : o.validate now = .ok ()) :
    o.uid ≠ "" := by
  simp only [validate, Validation.header, Validation.bind_eq_ok] at h
  have huid := Validation.require_eq_ok.1 h.1.1
  rintro he
  rw [he] at huid
  cases huid

namespace Http

variable {uid : String} {text : List Char} {s : Server}

/-! ## Ids -/

/-- What is asked of an id without blanks around it. -/
theorem checkId_eq (htrim : Text.trimmed uid = uid) (hne : uid ≠ "") : checkId uid =
    if maxIdBytes < uid.utf8ByteSize then .error .tooLong
    else if uid.toList.any Text.isControl then .error .control
    else .ok uid := by
  have hempty : uid.isEmpty = false := by simpa using hne
  simp [checkId, htrim, hempty]

theorem PercentEncodes.decode? (h : PercentEncodes text (.ofString uid)) :
    Text.Utf8.decode? (Http.percentDecode text) = some uid.toList := by
  rw [h.percentDecode]
  exact Text.Utf8.decode?_encode uid.toList

theorem ofString_ne_nil (hne : uid ≠ "") : Bytes.ofString uid ≠ [] := by
  intro h
  have hnil : uid.toList = [] := Text.Utf8.encode_injective h
  exact hne (String.toList_eq_nil_iff.1 hnil)

/-! ## Requests -/

namespace Server

/-- The answer for a text of an id. -/
theorem order_eq (h : PercentEncodes text (.ofString uid)) :
    (s.order text).1 = match checkId uid with
      | .error e => .ofFailure (.badRequest e.message)
      | .ok id =>
        match (s.service.get id).1 with
        | .ok o => .json 200 o.toJsonText
        | .error e => .ofOrderError e := by
  simp only [order, h.decode?, String.ofList_toList]
  cases checkId uid with
  | error e => rfl
  | ok id =>
    dsimp only
    generalize s.service.get id = r
    rcases r with ⟨_ | o, service⟩ <;> rfl

/-- A request that reads the path `/order/…` is answered by the order's text. -/
theorem handle_get_order (h : PercentEncodes text (.ofString uid)) (hne : uid ≠ "")
    (patience : Nat) :
    (s.handle patience { method := "GET", target := .ofText ("/order/" ++ .ofList text) }).1 =
      some (s.order text).1 := by
  have hroute := h.route (ofString_ne_nil hne)
  have hmethod : "GET" ∈ (Route.order text).methods := List.mem_cons_self
  have hhead : "GET" ≠ "HEAD" := by decide
  simp only [handle, hroute, if_pos hmethod, handleRoute, if_neg hhead]

/-- An order that was accepted and saved is what a request for it is answered with, or a version of
it that was in the cache or on its way there when it was saved, if its identity is short enough and
has no control characters; else the request is refused. Blanks around the identity are left out. -/
theorem handle_saved {backend : CacheBackend} {capacity : Nat} {cache : OrderCache}
    (hcache : OrderCache.build backend capacity = .ok cache) (orders : List Order)
    (before after : List Service.Action) {o : Order} {now : Timestamp}
    (hvalid : o.validate now = .ok ()) (htrim : Text.trimmed o.uid = o.uid)
    (hlater : ∀ o', .save o' ∈ after → o'.uid ≠ o.uid)
    (hs : s.service =
      (((Service.opened orders cache).run before).save o).2.run after)
    (htext : PercentEncodes text (.ofString o.uid)) (patience : Nat) :
    (((Service.opened orders cache).run before).save o).1 = .ok () ∧
      ∃ v, (v = o ∨ v ∈ ((Service.opened orders cache).run before).copies o.uid) ∧
        (s.handle patience { method := "GET", target := .ofText ("/order/" ++ .ofList text) }).1 =
          some (if maxIdBytes < o.uid.utf8ByteSize then
              .ofFailure (.badRequest "Order id cannot be longer than 128 characters")
            else if o.uid.toList.any Text.isControl then
              .ofFailure (.badRequest "Order id cannot contain control characters")
            else .json 200 v.toJsonText) := by
  have hne := Order.uid_ne_of_validate hvalid
  have hsound := (Service.sound_opened hcache orders).run before
  obtain ⟨v, hget, hv⟩ := hsound.get_after_save hne hlater
  refine ⟨by rw [hsound.save], v, hv, ?_⟩
  rw [handle_get_order htext hne, order_eq htext, checkId_eq htrim hne, hs]
  split_ifs with hlong hcontrol
  · rfl
  · rfl
  · simp only [hget]

/-- A server that has just been set up around a service. -/
def around (service : Service) : Server where
  timeline := {
    clock := ⟨0, default⟩
    link := { channel := .new 64 20, sink := .memory 0 [] }
    pipeline := .new {} 1000
    processor := service }
  retainsLetters := false

/-- An order that keeps every rule. -/
def parcel (uid : String) : Order where
  uid
  trackNumber := "T"
  entry := "W"
  delivery := {
    name := "N", phone := "+1", zip := "1", city := "C", address := "A", region := "R"
    email := "n@mail.com" }
  payment := { (default : Payment) with
    transaction := "t", currency := "USD", provider := "p", paidAt := 1, bank := "b" }
  items := [{ (default : Item) with
    chartId := 1, trackNumber := "T", rid := "r", name := "n", size := "0", nomenclatureId := 1
    brand := "b" }]
  locale := "en"
  internalSignature := ""
  customerId := "c"
  deliveryService := "d"
  shardKey := "9"
  smId := 0
  createdAt := default
  oofShard := "1"

theorem handle_saved_with_space : ∃ cache, OrderCache.build .lru 16 = .ok cache ∧
    (parcel "a b").validate default = .ok () ∧
    ((around ((((Service.opened [] cache).run []).save (parcel "a b")).2.run
      [.fill 0, .save (parcel "a")])).handle 1000
        { method := "GET", target := .ofText ("/order/" ++ .ofList "a%20b".toList) }).1 =
      some (.json 200 (parcel "a b").toJsonText) := by
  obtain ⟨cache, hcache⟩ : ∃ cache, OrderCache.build .lru 16 = .ok cache := ⟨_, rfl⟩
  have hvalid : (parcel "a b").validate default = .ok () := by rfl
  have hlater : ∀ o', .save o' ∈ [Service.Action.fill 0, .save (parcel "a")] →
      o'.uid ≠ (parcel "a b").uid := by
    intro o' h
    simp only [List.mem_cons, reduceCtorEq, Service.Action.save.injEq, List.not_mem_nil, or_false,
      false_or] at h
    rw [h]
    decide
  have htext : PercentEncodes "a%20b".toList (.ofString "a b") :=
    .plain (c := 'a') (by decide) (.escaped (h := '2') (l := '0') (x := 2) (y := 0) rfl rfl
      (.plain (c := 'b') (by decide) .nil))
  refine ⟨cache, hcache, hvalid, ?_⟩
  obtain ⟨-, v, hv, hanswer⟩ := handle_saved hcache [] [] _ hvalid (by decide) hlater
    (s := around _) rfl htext 1000
  have hcopies : v ∉ ((Service.opened [] cache).run []).copies "a b" := by
    have hempty : ((Service.opened [] cache).run []).cache.cached? "a b" = none :=
      (OrderCache.sound_build hcache).2 "a b"
    rw [Service.mem_copies, hempty]
    exact fun h => h.elim nofun fun h => nomatch h.1
  refine hanswer.trans ?_
  rw [hv.resolve_right hcopies, if_neg (by decide), if_neg (by decide)]

/-- Validation accepts a control character in the identity of an order, and requests for it are
refused. -/
theorem control_refused : ∃ cache, OrderCache.build .lru 16 = .ok cache ∧
    (parcel "a\u0001b").validate default = .ok () ∧
    ((Service.opened [] cache).save (parcel "a\u0001b")).1 = .ok () ∧
    PercentEncodes "a%01b".toList (.ofString "a\u0001b") ∧
    ((around ((Service.opened [] cache).save (parcel "a\u0001b")).2).handle 1000
        { method := "GET", target := .ofText ("/order/" ++ .ofList "a%01b".toList) }).1 =
      some (.ofFailure (.badRequest "Order id cannot contain control characters")) ∧
    Response.ofFailure (.badRequest "Order id cannot contain control characters") ≠
      .json 200 (parcel "a\u0001b").toJsonText := by
  obtain ⟨cache, hcache⟩ : ∃ cache, OrderCache.build .lru 16 = .ok cache := ⟨_, rfl⟩
  have htext : PercentEncodes "a%01b".toList (.ofString "a\u0001b") :=
    .plain (c := 'a') (by decide) (.escaped (h := '0') (l := '1') (x := 0) (y := 1) rfl rfl
      (.plain (c := 'b') (by decide) .nil))
  have hcheck : checkId "a\u0001b" = .error .control := by decide
  refine ⟨cache, hcache, by rfl, rfl, htext, ?_, ?_⟩
  · rw [handle_get_order htext (by decide), order_eq htext, hcheck]
    rfl
  · intro h
    exact absurd (congrArg Response.status h) (by decide)

end Server

end Http

end OrderDesk
