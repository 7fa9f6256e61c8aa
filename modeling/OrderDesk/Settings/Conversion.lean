import OrderDesk.Settings.Value
import OrderDesk.Text.Quoted
import OrderDesk.Cache.OrderCache

/-! # From raw settings to typed ones

* `ConversionError`: why a raw setting has no value of the wanted type;
* `Located`: a raw setting with the key that messages name it by;
* `Located.unsigned`, `narrow`, `text`, `backend`, `optional`: the typed values;
* `Located.field?`: a field of a section. -/

namespace OrderDesk.Settings

/-- What stands where something else is wanted. -/
inductive Found where
  | nothing
  | boolean (b : Bool)
  | integer (n : Int)
  | signed (n : Int)
  | unsigned (n : Nat)
  | floating (x : Double)
  | text (s : String)
  | array
  | table
  deriving DecidableEq, Repr

def Found.name : Found → String
  | .nothing => "unit value"
  | .boolean b => s!"boolean \x60{b}\x60"
  | .integer n => s!"integer \x60{n}\x60"
  | .signed n => s!"64-bit integer \x60{n}\x60"
  | .unsigned n => s!"64-bit unsigned integer \x60{n}\x60"
  | .floating x => s!"floating point \x60{x.pointedText}\x60"
  | .text s => s!"string {Text.quoted s}"
  | .array => "sequence"
  | .table => "map"

inductive Wanted where
  | integer
  | notNegative
  /-- An integer without a sign that fits a number of bits. -/
  | narrow (bits : Nat)
  | text
  | section (name : String)
  deriving DecidableEq, Repr

def Wanted.name : Wanted → String
  | .integer => "an integer"
  | .notNegative => "an unsigned 64 bit or less integer"
  | .narrow bits => s!"an unsigned {bits} bit integer"
  | .text => "a string"
  | .section name => s!"struct {name}"

inductive ConversionError where
  | mismatch (found : Found) (wanted : Wanted) (key : String) (source : Option Source)
  | unknownBackend (name key : String)
  /-- A backend is neither a text nor a table with one member. -/
  | noBackend (key : String)
  deriving DecidableEq, Repr

def ConversionError.text : ConversionError → String
  | .mismatch found wanted key source =>
    s!"invalid type: {found.name}, expected {wanted.name} for key \x60{key}\x60" ++
      match source with
      | some s => s!" in {s.text}"
      | none => ""
  | .unknownBackend name key =>
    s!"enum CacheBackend does not have variant constructor {name} for key \x60{key}\x60"
  | .noBackend key =>
    "value of enum CacheBackend should be represented by either string or table with exactly " ++
      s!"one key for key \x60{key}\x60"

structure Located where
  key : String
  value : Value

namespace Located

def mismatch {α : Type} (l : Located) (found : Found) (wanted : Wanted) :
    Except ConversionError α :=
  .error (.mismatch found wanted l.key l.value.source)

def maxUnsigned : Nat := Nat.pow 2 64 - 1

/-- The text is one of some words, whose letters may be of either case. -/
def isOneOf (words : List String) (s : String) : Bool :=
  words.any (Double.isWord · s.toList)

/-- An integer from `0` to `2 ^ 64 - 1`. A truth value counts as `0` or `1`, a number is rounded
and a text is read. -/
def unsigned (l : Located) : Except ConversionError Nat :=
  match l.value with
  | .scalar _ (.boolean b) => .ok b.toNat
  | .scalar _ (.integer n) => if n < 0 then l.mismatch (.signed n) .notNegative else .ok n.toNat
  | .scalar _ (.floating x) => .ok (x.round maxUnsigned)
  | .scalar _ (.text s) =>
    if isOneOf ["true", "on", "yes"] s then .ok 1
    else if isOneOf ["false", "off", "no"] s then .ok 0
    else
      match Decimal.readUnsigned maxUnsigned s.toList with
      | .ok n => .ok n
      | .error _ => l.mismatch (.text s) .integer
  | .scalar _ .nothing => l.mismatch .nothing .integer
  | .array .. => l.mismatch .array .integer
  | .table .. => l.mismatch .table .integer

def narrow (bits : Nat) (l : Located) : Except ConversionError Nat := do
  let n ← l.unsigned
  if n < Nat.pow 2 bits then pure n else .error (.mismatch (.unsigned n) (.narrow bits) l.key none)

/-- A text; a scalar of another kind counts as the text that it is written as. -/
def text (l : Located) : Except ConversionError String :=
  match l.value with
  | .scalar _ (.text s) => .ok s
  | .scalar _ (.boolean b) => .ok (toString b)
  | .scalar _ (.integer n) => .ok (toString n)
  | .scalar _ (.floating x) => .ok x.text
  | .scalar _ .nothing => l.mismatch .nothing .text
  | .array .. => l.mismatch .array .text
  | .table .. => l.mismatch .table .text

def backendNamed (l : Located) (name : String) : Except ConversionError CacheBackend :=
  match [CacheBackend.lru, .moka].find? (·.name = name) with
  | some b => .ok b
  | none => .error (.unknownBackend name l.key)

/-- A backend, named by a text or by the only member of a table. -/
def backend (l : Located) : Except ConversionError CacheBackend :=
  match l.value with
  | .scalar _ (.text s) => l.backendNamed s
  | .table _ [(name, _)] => l.backendNamed name
  | _ => .error (.noBackend l.key)

def optional {α : Type} (read : Located → Except ConversionError α) (l : Located) :
    Except ConversionError (Option α) :=
  match l.value with
  | .scalar _ .nothing => .ok none
  | _ => (read l).map some

/-- A section is a table, or an array of its fields in their order. -/
def checkSection (name : String) (l : Located) : Except ConversionError Unit :=
  let mismatch (found : Found) : Except ConversionError Unit :=
    .error (.mismatch found (.section name) l.key none)
  match l.value with
  | .table .. | .array .. => .ok ()
  | .scalar _ .nothing => mismatch .nothing
  | .scalar _ (.boolean b) => mismatch (.boolean b)
  | .scalar _ (.integer n) => mismatch (.integer n)
  | .scalar _ (.floating x) => mismatch (.floating x)
  | .scalar _ (.text s) => mismatch (.text s)

def field? (l : Located) (position : Nat) (name : String) : Option Located :=
  match l.value with
  | .table _ ms => (ms.lookup name).map fun v => ⟨s!"{l.key}.{name}", v⟩
  | .array _ vs => vs[position]?.map fun v => ⟨s!"{l.key}[{position}]", v⟩
  | .scalar .. => none

end Located

/-- The value of a setting that is there, else the default. -/
def readOr {α : Type} (default : α) (read : Located → Except ConversionError α) :
    Option Located → Except ConversionError α
  | some l => read l
  | none => .ok default

end OrderDesk.Settings
