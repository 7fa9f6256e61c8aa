import OrderDesk.Text.Blank
import OrderDesk.Time.Timestamp

/-! # Dates in RFC 3339

Writing gives one form: UTC, as few of zero, three, six or nine decimals as the fraction needs.
Reading is lenient: numbers need no padding, blanks may stand before each number and separator,
the date and the time may be joined by `T`, `t` or a space, and the offset may be `Z`, `z`,
`UTC` in any case, or signed.

* `Timestamp.toText`: the written form;
* `Timestamp.ofText`: the reader, with the causes of failure in `DateError`. -/

namespace OrderDesk

inductive DateError where
  | invalid
  | tooShort
  | trailing
  | outOfRange
  /-- In UTC the date lies outside the supported years. -/
  | impossible
  deriving DecidableEq, Repr

def DateError.message : DateError → String
  | .invalid => "input contains invalid characters"
  | .tooShort => "premature end of input"
  | .trailing => "trailing input"
  | .outOfRange => "input is out of range"
  | .impossible => "no possible date and time matching input"

namespace Rfc3339

open Text

/-! ## Writing -/

/-- `n` in decimal, with zeros in front up to `width` digits. -/
def padded (width n : Nat) : List Char :=
  let ds := Nat.toDigits 10 n
  List.replicate (width - ds.length) '0' ++ ds

/-- Four digits from year 0 to 9999, a sign and at least four digits outside. -/
def writeYear (year : Int) : List Char :=
  if 0 ≤ year ∧ year ≤ 9999 then padded 4 year.toNat
  else (if year < 0 then '-' else '+') :: padded 4 year.natAbs

/-- The shortest of the three widths that loses nothing; a whole second has no fraction. -/
def writeFraction (nanos : Nat) : List Char :=
  if nanos = 0 then []
  else if nanos % 1000000 = 0 then '.' :: padded 3 (nanos / 1000000)
  else if nanos % 1000 = 0 then '.' :: padded 6 (nanos / 1000)
  else '.' :: padded 9 nanos

/-- An extended second is written as second 60. -/
def write (t : Timestamp) : List Char :=
  let leap := Nat.pow 10 9 ≤ t.nanos
  writeYear t.date.year ++ '-' :: padded 2 t.date.month ++ '-' :: padded 2 t.date.day ++
    'T' :: padded 2 (t.second / 3600) ++ ':' :: padded 2 (t.second / 60 % 60) ++
    ':' :: padded 2 (t.second % 60 + if leap then 1 else 0) ++
    writeFraction (if leap then t.nanos - Nat.pow 10 9 else t.nanos) ++ ['Z']

/-! ## Reading

Every reader takes the rest of the text and gives a value and what is left. -/

abbrev Reader (α : Type) := List Char → Except DateError (α × List Char)

/-- Digits up to `limit` of them, as many as there are; at least one. Values beyond `2⁶³ - 1`
are out of range. -/
def number (limit : Option Nat) (s : List Char) : Except DateError (Nat × List Char) :=
  let ds := s.takeWhile Char.isDigit
  let ds := match limit with
    | some n => ds.take n
    | none => ds
  match s, ds with
  | [], _ => .error .tooShort
  | _, [] => .error .invalid
  | _, ds =>
    let n := ds.foldl (fun acc c => acc * 10 + (c.toNat - '0'.toNat)) 0
    if n < Nat.pow 2 63 then .ok (n, s.drop ds.length) else .error .outOfRange

/-- A number between `low` and `high` of at most two digits. -/
def field (low high : Nat) (s : List Char) : Except DateError (Nat × List Char) := do
  let (n, s) ← number (some 2) (trimStart s)
  if low ≤ n ∧ n ≤ high then .ok (n, s) else .error .outOfRange

/-- At most four digits, or any number of them after a sign. -/
def year (s : List Char) : Except DateError (Int × List Char) := do
  let (y, s) ← (match trimStart s with
    | '-' :: s => do
      let (n, s) ← number none s
      pure (-(n : Int), s)
    | '+' :: s => do
      let (n, s) ← number none s
      pure ((n : Int), s)
    | s => do
      let (n, s) ← number (some 4) s
      pure ((n : Int), s))
  if -(Nat.pow 2 31 : Int) ≤ y ∧ y < Nat.pow 2 31 then .ok (y, s) else .error .outOfRange

/-- The separator `c`, after any blanks. -/
def separator (c : Char) (s : List Char) : Except DateError (List Char) :=
  match trimStart s with
  | [] => .error .tooShort
  | d :: s => if d = c then .ok s else .error .invalid

/-- One of `T`, `t` and the space. -/
def joint : List Char → Except DateError (List Char)
  | [] => .error .tooShort
  | c :: s => if c = 'T' ∨ c = 't' ∨ c = ' ' then .ok s else .error .invalid

/-- A point and at least one digit, or nothing; digits after the ninth are dropped. -/
def fraction : List Char → Except DateError (Nat × List Char)
  | '.' :: s => do
    let (n, rest) ← number (some 9) s
    let read := s.length - rest.length
    .ok (n * Nat.pow 10 (9 - read), rest.dropWhile Char.isDigit)
  | s => .ok (0, s)

def twoDigits : List Char → Except DateError (Nat × List Char)
  | a :: b :: s =>
    if a.isDigit && b.isDigit then
      .ok ((a.toNat - '0'.toNat) * 10 + (b.toNat - '0'.toNat), s)
    else .error .invalid
  | s => if (s.map Char.utf8Size).foldr (· + ·) 0 < 2 then .error .tooShort else .error .invalid

/-- The hours and minutes of a signed offset, in seconds; colons and blanks may part them. -/
def offsetBody (s : List Char) : Except DateError (Int × List Char) := do
  let (hours, s) ← twoDigits s
  let s := s.dropWhile fun c => c == ':' || isBlank c
  let (minutes, s) ← twoDigits s
  if minutes < 60 then .ok (hours * 3600 + minutes * 60, s) else .error .outOfRange

def offset (s : List Char) : Except DateError (Int × List Char) :=
  match trimStart s with
  | [] => .error .tooShort
  | c :: s =>
    if c = 'Z' ∨ c = 'z' then .ok (0, s)
    else if c = '+' then offsetBody s
    else if c = '-' ∨ c = '\u2212' then do
      let (n, s) ← offsetBody s
      .ok (-n, s)
    else
      match c.toLower, s.map Char.toLower, s with
      | 'u', 't' :: 'c' :: _, _ :: _ :: rest => .ok (0, rest)
      | _, _, _ => .error .invalid

/-- Date, time and offset, brought to UTC. -/
def read (s : List Char) : Except DateError Timestamp := do
  let (year, s) ← year s
  let s ← separator '-' s
  let (month, s) ← field 1 12 s
  let s ← separator '-' s
  let (day, s) ← field 1 31 s
  let s ← joint s
  let (hour, s) ← field 0 23 s
  let s ← separator ':' s
  let (minute, s) ← field 0 59 s
  let s ← separator ':' s
  let (second, s) ← field 0 60 s
  let (nanos, s) ← fraction s
  let (offset, s) ← offset s
  if trimStart s ≠ [] then .error .trailing
  else
    match Date.ofYmd? year month day with
    | none => .error .outOfRange
    | some date =>
      if offset.natAbs ≥ Timestamp.secondsPerDay then .error .outOfRange
      else
        let leap := second = 60
        let there : Timestamp :=
          { date
            second := hour * 3600 + minute * 60 + (if leap then 59 else second)
            nanos := nanos + if leap then Nat.pow 10 9 else 0 }
        match there.shift? (-offset) with
        | none => .error .impossible
        | some t => .ok t

end Rfc3339

def Timestamp.toText (t : Timestamp) : String := .ofList (Rfc3339.write t)

def Timestamp.ofText (s : String) : Except DateError Timestamp := Rfc3339.read s.toList

end OrderDesk
