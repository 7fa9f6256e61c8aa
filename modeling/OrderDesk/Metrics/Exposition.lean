import OrderDesk.Decimal.Notation

/-! # Metrics as text

A family of series has a name, a description and a kind; a series has labels and a value. The
page lists, for each family that has a series, its description and kind and then its series,
one a line.

* `Tally`: counts by key;
* `Family`, `Series`: what is shown;
* `Metrics.lines`: the page, in the order of its bytes. -/

namespace OrderDesk

/-- How often each key was counted; a key that never was is absent. -/
abbrev Tally (κ : Type) := List (κ × Nat)

namespace Tally

variable {κ : Type} [BEq κ]

def count (t : Tally κ) (key : κ) : Nat := (t.lookup key).getD 0

def bump (key : κ) : Tally κ → Tally κ
  | [] => [(key, 1)]
  | (k, n) :: t => if k == key then (k, n + 1) :: t else (k, n) :: bump key t

end Tally

namespace Metrics

inductive Kind where
  | counter
  | gauge
  | summary
  | histogram
  deriving DecidableEq, Repr

def Kind.text : Kind → String
  | .counter => "counter"
  | .gauge => "gauge"
  | .summary => "summary"
  | .histogram => "histogram"

structure Series where
  /-- What is appended to the name of the family. -/
  suffix : String := ""
  labels : List (String × String)
  value : String
  deriving DecidableEq, Repr

structure Family where
  name : String
  description : String
  kind : Kind
  series : List Series
  deriving DecidableEq, Repr

/-- The value of a label between its quotes. -/
def labelValue (s : String) : String :=
  .ofList (s.toList.flatMap fun c =>
    if c = '\\' then ['\\', '\\'] else if c = '"' then ['\\', '"']
    else if c = '\n' then ['\\', 'n'] else [c])

def Series.line (name : String) (s : Series) : String :=
  let labels := s.labels.map fun (k, v) => k ++ "=\"" ++ labelValue v ++ "\""
  let shown := if labels.isEmpty then "" else "\x7b" ++ ",".intercalate labels ++ "\x7d"
  s!"{name}{s.suffix}{shown} {s.value}"

def Family.lines (f : Family) : List String :=
  if f.series.isEmpty then []
  else
    s!"# HELP {f.name} {f.description}" :: s!"# TYPE {f.name} {f.kind.text}" ::
      f.series.map (Series.line f.name)

def lines (families : List Family) : List String :=
  (families.flatMap Family.lines).mergeSort fun a b => decide (a ≤ b)

/-- Why a second exporter cannot be installed. -/
def alreadyInstalled : String :=
  "failed to install exporter as global recorder: attempted to set a recorder after " ++
    "the metrics system was already initialized"

/-- The value of a gauge, which is kept as a double. -/
def gaugeText (n : Nat) : String := floatText (.ofNat n)

end Metrics

end OrderDesk
