import OrderDesk.Toml.Value

/-! # Tables under construction

A document mentions a table in several places: a header opens it, a header for a table below it
implies it, a dotted key puts something into it. Which of them came first decides what may still
be added.

* `Draft`: what a name stands for so far;
* `insert?`: a value under a dotted key;
* `open?`: a header, which names a table or starts a row of an array of tables;
* `Draft.toValue`: the value in the end. -/

namespace OrderDesk.Toml

/-- What first called for a table. -/
inductive Mention where
  | header
  /-- A header of a table below it. -/
  | implied
  /-- A dotted key. -/
  | dotted
  deriving DecidableEq, Repr

inductive Draft where
  /-- A value that is written in one piece. -/
  | closed (v : Value)
  | table (mention : Mention) (members : List (String × Draft))
  /-- An array of tables, of which only the last can grow. -/
  | rows (finished : List Value) (last : List (String × Draft))

mutual

def Draft.toValue : Draft → Value
  | .closed v => v
  | .table _ ms => .table (Draft.toValues ms)
  | .rows finished last => .array (finished ++ [.table (Draft.toValues last)])

def Draft.toValues : List (String × Draft) → List (String × Value)
  | [] => []
  | (k, d) :: ms => (k, d.toValue) :: Draft.toValues ms

end

abbrev Members := List (String × Draft)

namespace Members

/-- The members with what `key` stands for changed, or given a meaning. -/
def alter? (key : String) (f : Option Draft → Option Draft) : Members → Option Members
  | [] => (f none).map fun d => [(key, d)]
  | (k, d) :: ms =>
    if k = key then (f (some d)).map fun d => (k, d) :: ms
    else (alter? key f ms).map ((k, d) :: ·)

/-- The members with a value under a key of one or more parts, which has none yet. The tables on
the way may not have a header, and from then on count as mentioned by a dotted key. A row of an
array of tables can be passed through, but gets no value this way. -/
def insert? (v : Value) : List String → Members → Option Members
  | [], _ => none
  | [key], ms => alter? key (fun d => if d.isSome then none else some (.closed v)) ms
  | key :: path, ms =>
    let isLast := path.length = 1
    alter? key (fun
      | none => (insert? v path []).map (.table .dotted)
      | some (.table mention inner) =>
        if mention = .header then none else (insert? v path inner).map (.table .dotted)
      | some (.rows finished inner) =>
        if isLast then none else (insert? v path inner).map (.rows finished)
      | some (.closed _) => none) ms

/-- The members after a header, `start` saying what its last part stands for now. The header
passes through tables and through the last rows of arrays of tables. -/
def open? (start : Option Draft → Option Draft) : List String → Members → Option Members
  | [], _ => none
  | [key], ms => alter? key start ms
  | key :: path, ms =>
    alter? key (fun
      | none => (open? start path []).map (.table .implied)
      | some (.table mention inner) => (open? start path inner).map (.table mention)
      | some (.rows finished inner) => (open? start path inner).map (.rows finished)
      | some (.closed _) => none) ms

/-- A table that gets a header, which it has not had, and is then filled. -/
def startTable (fill : Members → Option Members) : Option Draft → Option Draft
  | none => (fill []).map (.table .header)
  | some (.table .implied inner) => (fill inner).map (.table .header)
  | some _ => none

/-- An array of tables that gets one more row, which is then filled. -/
def startRow (fill : Members → Option Members) : Option Draft → Option Draft
  | none => (fill []).map (.rows [])
  | some (.rows finished last) =>
    (fill []).map (.rows (finished ++ [.table (Draft.toValues last)]))
  | some _ => none

end Members

end OrderDesk.Toml
