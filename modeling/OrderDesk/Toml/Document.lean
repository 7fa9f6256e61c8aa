import OrderDesk.Toml.Scalar
import OrderDesk.Toml.Draft

/-! # TOML documents

A document is a list of sections, each with a header, but for the first, and with entries of a
key and a value.

* `Key.read?`, `Entry.read?`, `Value.read?`: the parts of an entry;
* `Section.readAll?`: the sections of a text;
* `Toml.parse?`: the table that a text describes, `none` for a text that is no document. -/

namespace OrderDesk.Toml

/-- How deep arrays and tables in braces may stand in each other, and how many parts a key may
have: a document that goes deeper is refused. -/
def maxDepth : Nat := 80

/-! ## Keys -/

def isBareChar (c : Char) : Bool := c.isAlphanum || c == '_' || c == '-'

/-- One part of a key, bare or quoted. -/
def Key.readPart? : Reader String := fun s =>
  let bare := s.takeWhile isBareChar
  if bare.isEmpty then Quoted.readLine? s else some (.ofList bare, s.dropWhile isBareChar)

/-- A key of at most `depth` parts, with points between them. -/
def Key.readParts? : (depth : Nat) → Reader (List String)
  | 0, _ => none
  | depth + 1, s => do
    let (k, s) ← Key.readPart? s
    match skipBlank s with
    | '.' :: s => do
      let (ks, s) ← Key.readParts? depth (skipBlank s)
      pure (k :: ks, s)
    | s => pure ([k], s)

def Key.read? : Reader (List String) := Key.readParts? maxDepth

/-! ## Values and entries -/

/-- A key of one or more parts, and what it stands for. -/
abbrev Entry := List String × Value

def Members.insertAll? (entries : List Entry) (ms : Members) : Option Members :=
  entries.foldlM (fun ms (key, v) => ms.insert? v key) ms

def Value.ofEntries? (entries : List Entry) : Option Value :=
  (Members.insertAll? entries []).map fun ms => .table (Draft.toValues ms)

/-- What follows the equals sign after a key, and the blanks around it. -/
def equals? : List Char → Option (List Char)
  | '=' :: s => some (skipBlank s)
  | _ => none

mutual

/-- The value at the head, in which at most `depth` arrays and tables stand in each other. -/
def Value.readWithin? : (fuel depth : Nat) → Reader Value
  | 0, _, _ => none
  | fuel + 1, depth, s =>
    match s, depth with
    | '[' :: s, depth + 1 => do
      let (vs, s) ← Value.readElements? fuel depth (skipSpace s)
      pure (.array vs, s)
    | '\x7b' :: s, depth + 1 => do
      let (entries, s) ← Entry.readMembers? fuel depth (skipSpace s)
      pure (← Value.ofEntries? entries, s)
    | s, _ => Scalar.read? s

/-- The elements of an array and its closing bracket; a comma may follow the last. -/
def Value.readElements? : (fuel depth : Nat) → Reader (List Value)
  | 0, _, _ => none
  | fuel + 1, depth, s =>
    match s with
    | ']' :: s => some ([], s)
    | s => do
      let (v, s) ← Value.readWithin? fuel depth s
      match skipSpace s with
      | ',' :: s => do
        let (vs, s) ← Value.readElements? fuel depth (skipSpace s)
        pure (v :: vs, s)
      | ']' :: s => pure ([v], s)
      | _ => none

/-- The entries of a table between braces and its closing brace; a comma may follow the last, and
line ends may stand on both sides of the equals sign. -/
def Entry.readMembers? : (fuel depth : Nat) → Reader (List Entry)
  | 0, _, _ => none
  | fuel + 1, depth, s =>
    match s with
    | '\x7d' :: s => some ([], s)
    | s => do
      let (k, s) ← Key.read? s
      let (v, s) ← Value.readWithin? fuel depth (skipSpace (← equals? (skipSpace s)))
      match skipSpace s with
      | ',' :: s => do
        let (es, s) ← Entry.readMembers? fuel depth (skipSpace s)
        pure ((k, v) :: es, s)
      | '\x7d' :: s => pure ([(k, v)], s)
      | _ => none

end

/-- The value at the head. Each character takes at most two steps. -/
def Value.read? : Reader Value := fun s => Value.readWithin? (2 * s.length + 2) maxDepth s

def Entry.read? : Reader Entry := fun s => do
  let (k, s) ← Key.read? s
  let (v, s) ← Value.read? (← equals? s)
  pure ((k, v), s)

/-! ## Sections -/

inductive Header where
  | table (path : List String)
  /-- One more row of an array of tables. -/
  | row (path : List String)
  deriving DecidableEq, Repr

structure Section where
  header : Header
  entries : List Entry

def Header.read? : Reader Header
  | '[' :: '[' :: s => do
    let (k, s) ← Key.read? (skipBlank s)
    match s with
    | ']' :: ']' :: s => pure (.row k, s)
    | _ => none
  | '[' :: s => do
    let (k, s) ← Key.read? (skipBlank s)
    match s with
    | ']' :: s => pure (.table k, s)
    | _ => none
  | _ => none

/-- At most `fuel` entries, each on a line of its own, up to a header or the end. -/
def Entry.readLines? : (fuel : Nat) → Reader (List Entry)
  | 0, _ => none
  | fuel + 1, s =>
    match skipSpace s with
    | [] => some ([], [])
    | '[' :: s => some ([], '[' :: s)
    | s => do
      let (e, s) ← Entry.read? s
      let (es, s) ← Entry.readLines? fuel (← skipLine? s)
      pure (e :: es, s)

def Entry.readAll? : Reader (List Entry) := fun s => Entry.readLines? (s.length + 1) s

/-- The sections of a text that starts with a header; there are at most `fuel` of them. -/
def Section.readAll? : (fuel : Nat) → List Char → Option (List Section)
  | 0, _ => none
  | _, [] => some []
  | fuel + 1, s => do
    let (header, s) ← Header.read? s
    let (entries, s) ← Entry.readAll? (← skipLine? s)
    return { header, entries } :: (← Section.readAll? fuel s)

def Members.extend? (ms : Members) (part : Section) : Option Members :=
  let fill := Members.insertAll? part.entries
  match part.header with
  | .table path => ms.open? (Members.startTable fill) path
  | .row path => ms.open? (Members.startRow fill) path

/-- The text without a byte order mark at its start. -/
def dropMark : List Char → List Char
  | '\ufeff' :: s => s
  | s => s

def parse? (text : String) : Option (List (String × Value)) := do
  let s := dropMark text.toList
  let (entries, s) ← Entry.readAll? s
  let sections ← Section.readAll? (s.length + 1) s
  let ms ← sections.foldlM Members.extend? (← Members.insertAll? entries [])
  pure (Draft.toValues ms)

end OrderDesk.Toml
