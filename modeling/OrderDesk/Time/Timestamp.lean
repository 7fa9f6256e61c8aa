import OrderDesk.Time.Date

/-! # Instants in UTC

A calendar date, the second of its day and a fraction in nanoseconds. A leap second is kept in
the second it extends: its fraction runs from `10⁹` to `2 · 10⁹ - 1`, so it comes after every
other instant of that second and before the next one.

* `Timestamp.compare`: earlier instants first;
* `Timestamp.ofUnix`, `Timestamp.unixSeconds`: counting seconds from 1970-01-01T00:00:00Z;
* `Timestamp.shift?`: the instant a number of seconds earlier or later. -/

namespace OrderDesk

structure Timestamp where
  date : Date
  /-- Seconds since midnight. -/
  second : Nat
  nanos : Nat
  deriving DecidableEq, Repr, Inhabited

namespace Timestamp

def secondsPerDay : Nat := 86400

/-- The date exists, the second lies in the day, and only the last second of a minute is
extended. -/
def Valid (t : Timestamp) : Prop :=
  t.date.Valid ∧ t.second < secondsPerDay ∧
    (t.nanos < Nat.pow 10 9 ∨ t.nanos < 2 * Nat.pow 10 9 ∧ t.second % 60 = 59)

instance (t : Timestamp) : Decidable t.Valid := inferInstanceAs (Decidable (_ ∧ _))

protected def compare (a b : Timestamp) : Ordering :=
  (compare a.date b.date).then ((compare a.second b.second).then (compare a.nanos b.nanos))

instance : Ord Timestamp := ⟨Timestamp.compare⟩

def le (a b : Timestamp) : Bool := (compare a b).isLE

def unixSeconds (t : Timestamp) : Int := t.date.toDays * secondsPerDay + t.second

def ofUnix (seconds : Int) (nanos : Nat) : Timestamp where
  date := .ofDays (seconds.fdiv secondsPerDay)
  second := (seconds.fmod secondsPerDay).toNat
  nanos := nanos

/-- The instant `offset` seconds later, for less than a day either way; the fraction stays.
`none` when it leaves the supported dates. -/
def shift? (t : Timestamp) (offset : Int) : Option Timestamp :=
  let second := (t.second : Int) + offset
  if second < 0 then
    t.date.prev?.map fun date => { t with date, second := (second + secondsPerDay).toNat }
  else if second < secondsPerDay then some { t with second := second.toNat }
  else t.date.next?.map fun date => { t with date, second := (second - secondsPerDay).toNat }

end Timestamp

end OrderDesk
