import OrderDesk.Order.Validation

/-!
# Validation as time goes by

Instants are ordered, earlier ones first. The calendar time enters the validation of an order in one
rule only, that it was not created later; so an order that keeps the rules once keeps them from then
on (`Order.validate_mono`).
-/

namespace OrderDesk

/-! ## Instants -/

instance : Std.TransOrd Date :=
  inferInstanceAs (Std.TransCmp (compareLex (compareOn Date.year)
    (compareLex (compareOn Date.month) (compareOn Date.day))))

instance : Std.TransOrd Timestamp :=
  inferInstanceAs (Std.TransCmp (compareLex (compareOn Timestamp.date)
    (compareLex (compareOn Timestamp.second) (compareOn Timestamp.nanos))))

namespace Timestamp

theorem le_refl (a : Timestamp) : a.le a := by
  have hself : compare a a = .eq := Std.ReflCmp.compare_self
  rw [le, hself]
  rfl

theorem le_trans {a b c : Timestamp} (hab : a.le b) (hbc : b.le c) : a.le c :=
  Std.TransCmp.isLE_trans hab hbc

end Timestamp

/-! ## Checks -/

namespace Validation

theorem require_eq_ok {holds : Bool} {field message : String} :
    require holds field message = .ok () ↔ holds := by
  cases holds with
  | true => exact ⟨fun _ => rfl, fun _ => rfl⟩
  | false => exact ⟨fun h => (nomatch h), fun h => (nomatch h)⟩

/-- Checks one after the other pass if each of them does. -/
theorem bind_eq_ok {check : Check} {next : Unit → Check} :
    (check >>= next) = .ok () ↔ check = .ok () ∧ next () = .ok () := by
  cases check with
  | ok u => exact ⟨fun h => ⟨rfl, h⟩, fun h => h.2⟩
  | error e => exact ⟨fun h => (nomatch h), fun h => (nomatch h.1)⟩

theorem header_mono {o : Order} {now later : Timestamp} (h : header o now = .ok ())
    (hle : now.le later) : header o later = .ok () := by
  simp only [header, bind_eq_ok] at h ⊢
  obtain ⟨huid, htrack, hentry, hlocale, hcustomer, hservice, hkey, hid, hdate, hshard⟩ := h
  have hlater : o.createdAt.le later := Timestamp.le_trans (require_eq_ok.1 hdate) hle
  exact ⟨huid, htrack, hentry, hlocale, hcustomer, hservice, hkey, hid,
    require_eq_ok.2 hlater, hshard⟩

end Validation

theorem Order.validate_mono {o : Order} {now later : Timestamp} (h : o.validate now = .ok ())
    (hle : now.le later) : o.validate later = .ok () := by
  simp only [validate, Validation.bind_eq_ok] at h ⊢
  exact ⟨Validation.header_mono h.1 hle, h.2⟩

end OrderDesk
