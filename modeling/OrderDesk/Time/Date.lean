/-! # Calendar dates

Days of the proleptic Gregorian calendar, in the years `-262143` to `262142`, ordered by year,
month and day.

* `Date.ofYmd?`: the date, if month, day and year exist;
* `Date.next?`, `Date.prev?`: the neighbouring days;
* `Date.ofDays`, `Date.toDays`: counting days from 1970-01-01. -/

namespace OrderDesk

structure Date where
  year : Int
  month : Nat
  day : Nat
  deriving DecidableEq, Repr, Inhabited

namespace Date

def isLeap (year : Int) : Bool :=
  year % 4 == 0 && (year % 100 != 0 || year % 400 == 0)

def monthLength (year : Int) (month : Nat) : Nat :=
  if month = 2 then (if isLeap year then 29 else 28)
  else if month = 4 ∨ month = 6 ∨ month = 9 ∨ month = 11 then 30
  else 31

def minYear : Int := -262143
def maxYear : Int := 262142

/-- Month, day and year exist and lie in the supported range. -/
def Valid (d : Date) : Prop :=
  minYear ≤ d.year ∧ d.year ≤ maxYear ∧ 1 ≤ d.month ∧ d.month ≤ 12 ∧
    1 ≤ d.day ∧ d.day ≤ monthLength d.year d.month

instance (d : Date) : Decidable d.Valid := inferInstanceAs (Decidable (_ ∧ _))

def ofYmd? (year : Int) (month day : Nat) : Option Date :=
  if Valid ⟨year, month, day⟩ then some ⟨year, month, day⟩ else none

/-- The day after; the last supported day has none. -/
def next? (d : Date) : Option Date :=
  if d.day < monthLength d.year d.month then some { d with day := d.day + 1 }
  else if d.month < 12 then some ⟨d.year, d.month + 1, 1⟩
  else if d.year < maxYear then some ⟨d.year + 1, 1, 1⟩
  else none

/-- The day before; the first supported day has none. -/
def prev? (d : Date) : Option Date :=
  if 1 < d.day then some { d with day := d.day - 1 }
  else if 1 < d.month then some ⟨d.year, d.month - 1, monthLength d.year (d.month - 1)⟩
  else if minYear < d.year then some ⟨d.year - 1, 12, 31⟩
  else none

protected def compare (a b : Date) : Ordering :=
  (compare a.year b.year).then ((compare a.month b.month).then (compare a.day b.day))

instance : Ord Date := ⟨Date.compare⟩

/-- Days before `month` in a year that starts in March, which puts the leap day last. -/
def daysBeforeMonth (month : Nat) : Nat := (153 * ((month + 9) % 12) + 2) / 5

/-- Days from 1970-01-01 to the date, negative before it. -/
def toDays (d : Date) : Int :=
  let year := if d.month ≤ 2 then d.year - 1 else d.year
  365 * year + year.fdiv 4 - year.fdiv 100 + year.fdiv 400 + daysBeforeMonth d.month + d.day
    - 719469

def ofDays (days : Int) : Date :=
  -- Eras of 400 years, counted from 1 March of year 0.
  let shifted := days + 719468
  let era := shifted.fdiv 146097
  let dayOfEra := (shifted.fmod 146097).toNat
  let yearOfEra := (dayOfEra - dayOfEra / 1460 + dayOfEra / 36524 - dayOfEra / 146096) / 365
  let dayOfYear := dayOfEra - (365 * yearOfEra + yearOfEra / 4 - yearOfEra / 100)
  let shiftedMonth := (5 * dayOfYear + 2) / 153
  let day := dayOfYear - (153 * shiftedMonth + 2) / 5 + 1
  let month := if shiftedMonth < 10 then shiftedMonth + 3 else shiftedMonth - 9
  let year := (yearOfEra : Int) + era * 400
  ⟨if month ≤ 2 then year + 1 else year, month, day⟩

end Date

end OrderDesk
