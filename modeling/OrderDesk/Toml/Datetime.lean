import OrderDesk.Toml.Value
import OrderDesk.Time.Date

/-! # TOML dates and times

A date, a time, or a date with a time and perhaps an offset from UTC. The canonical form has `T`
between date and time, `Z` or a signed offset at the end, and a fraction of at most nine digits
that does not end in a zero unless it is zero.

* `Datetime.canonical?`: the canonical form of a text, if every part of it exists;
* `Datetime.startsTime`: where a date goes on after a blank. -/

namespace OrderDesk.Toml.Datetime

/-- A number of exactly `width` digits, with its digits. -/
def digits? (width : Nat) : Reader (List Char × Nat) := fun s =>
  let ds := s.takeWhile Char.isDigit
  if ds.length = width then some ((ds, Double.digitsValue ds), s.dropWhile Char.isDigit) else none

def char? (c : Char) : List Char → Option (List Char)
  | [] => none
  | d :: s => if d = c then some s else none

def pair? (max : Nat) : Reader (List Char) := fun s => do
  let ((ds, n), s) ← digits? 2 s
  if n ≤ max then pure (ds, s) else none

def date? : Reader (List Char) := fun s => do
  let ((y, year), s) ← digits? 4 s
  let ((m, month), s) ← digits? 2 (← char? '-' s)
  let ((d, day), s) ← digits? 2 (← char? '-' s)
  let _ ← Date.ofYmd? year month day
  pure (y ++ '-' :: m ++ '-' :: d, s)

def fraction? : Reader (List Char) := fun s =>
  let ds := s.takeWhile Char.isDigit
  let kept := ((ds.take 9).reverse.dropWhile (· == '0')).reverse
  if ds.isEmpty then none
  else some (if kept.isEmpty then ['0'] else kept, s.dropWhile Char.isDigit)

/-- Hour and minute, perhaps with a second, which may have a fraction. -/
def time? : Reader (List Char) := fun s => do
  let (h, s) ← pair? 23 s
  let (m, s) ← pair? 59 (← char? ':' s)
  let minutes := h ++ ':' :: m
  match s with
  | ':' :: s => do
    let (t, s) ← pair? 60 s
    let seconds := minutes ++ ':' :: t
    match s with
    | '.' :: s => do
      let (f, s) ← fraction? s
      pure (seconds ++ '.' :: f, s)
    | s => pure (seconds, s)
  | s => pure (minutes, s)

/-- The offset at the end of a date with a time. An offset of zero has a plus sign. -/
def offset? : Reader (List Char)
  | [] => some ([], [])
  | c :: s =>
    if c == 'Z' || c == 'z' then some (['Z'], s)
    else if c == '+' || c == '-' then do
      let (h, s) ← pair? 23 s
      let (m, s) ← pair? 59 (← char? ':' s)
      pure ((if (h ++ m).all (· == '0') then '+' else c) :: h ++ ':' :: m, s)
    else none

/-- A date, which a time may follow. -/
def dated? : Reader (List Char) := fun s => do
  let (d, s) ← date? s
  match s with
  | [] => pure (d, [])
  | c :: s =>
    if c == 'T' || c == 't' || c == ' ' then do
      let (t, s) ← time? s
      let (o, s) ← offset? s
      pure (d ++ 'T' :: t ++ o, s)
    else none

/-- The canonical form of the whole text. -/
def canonical? (s : List Char) : Option String :=
  match dated? s <|> time? s with
  | some (t, []) => some (.ofList t)
  | _ => none

/-- `word` is a date that a time follows after one blank. -/
def startsTime (word rest : List Char) : Bool :=
  (date? word).any (·.2.isEmpty) &&
    match rest with
    | ' ' :: c :: _ => c.isDigit
    | _ => false

end OrderDesk.Toml.Datetime
