import OrderDesk.Toml.Value

/-! # Trees of raw settings

Before they are given their types the settings form a tree of tables, arrays and scalars, which
remember where they came from.

* `Value.assign`: a value put at the end of a path, whatever stood there;
* `Value.overlay`: a value put over another, tables being merged member by member;
* `Value.ofToml`: the tree of a settings file. -/

namespace OrderDesk.Settings

inductive Source where
  | environment
  | file (name : String)
  deriving DecidableEq, Repr

def Source.text : Source → String
  | .environment => "the environment"
  | .file name => name

inductive Scalar where
  | nothing
  | boolean (b : Bool)
  | integer (n : Int)
  | floating (x : Double)
  | text (s : String)
  deriving DecidableEq, Repr

/-- A raw setting. One that was made to hold others has no source. -/
inductive Value where
  | scalar (source : Option Source) (content : Scalar)
  | array (source : Option Source) (elements : List Value)
  | table (source : Option Source) (members : List (String × Value))
  deriving Repr

inductive Step where
  | member (name : String)
  /-- A position counted from the start, or from the end if it is negative. -/
  | element (index : Int)
  deriving DecidableEq, Repr

abbrev Path := List Step

namespace Value

def nothing : Value := .scalar none .nothing

def source : Value → Option Source
  | .scalar s _ | .array s _ | .table s _ => s

/-- The source and members of a table; anything else gives way to an empty table. -/
def asTable : Value → Option Source × List (String × Value)
  | .table s ms => (s, ms)
  | _ => (none, [])

/-- The source and elements of an array; anything else gives way to an empty array. -/
def asArray : Value → Option Source × List Value
  | .array s vs => (s, vs)
  | _ => (none, [])

/-- The members with one of them changed, which is made from nothing if it is missing. -/
def alter (name : String) (f : Value → Value) : List (String × Value) → List (String × Value)
  | [] => [(name, f nothing)]
  | (k, v) :: ms => if k = name then (k, f v) :: ms else (k, v) :: alter name f ms

/-- The place of an element, and the elements with as many added, at either end, as it takes for
the place to exist. -/
def reach (index : Int) (vs : List Value) : Nat × List Value :=
  if 0 ≤ index then
    (index.toNat, vs ++ List.replicate (index.toNat + 1 - vs.length) nothing)
  else
    let back := index.natAbs
    (vs.length - back, List.replicate (back - vs.length) nothing ++ vs)

mutual

/-- What becomes of `old` under a new value: a table adds its members to those of `old`, any other
value takes the place of `old`. -/
def overlay : (new old : Value) → Value
  | .table _ ms, old => .table old.asTable.1 (overlayAll ms old.asTable.2)
  | .scalar s c, _ => .scalar s c
  | .array s vs, _ => .array s vs

/-- Members under new ones. -/
def overlayAll : (new old : List (String × Value)) → List (String × Value)
  | [], old => old
  | (k, v) :: ms, old => overlayAll ms (alter k (overlay v) old)

end

/-- The tree with a value put at the end of the path. What stands in the way gives way. -/
def assign (new : Value) : Path → (old : Value) → Value
  | [], old => overlay new old
  | .member name :: path, old =>
    let (s, ms) := old.asTable
    .table s (alter name (assign new path) ms)
  | .element index :: path, old =>
    let (s, vs) := old.asArray
    let (i, vs) := reach index vs
    .array s (vs.modify i (assign new path))

mutual

/-- The tree of a value in a settings file. Dates count as text. -/
def ofToml (file : String) : Toml.Value → Value
  | .text t => .scalar (some (.file file)) (.text t)
  | .integer n => .scalar (some (.file file)) (.integer n)
  | .floating x => .scalar (some (.file file)) (.floating x)
  | .boolean b => .scalar (some (.file file)) (.boolean b)
  | .datetime t => .scalar (some (.file file)) (.text t)
  | .array vs => .array (some (.file file)) (ofTomlArray file vs)
  | .table ms => .table (some (.file file)) (ofTomlTable file ms)

def ofTomlArray (file : String) : List Toml.Value → List Value
  | [] => []
  | v :: vs => ofToml file v :: ofTomlArray file vs

def ofTomlTable (file : String) : List (String × Toml.Value) → List (String × Value)
  | [] => []
  | (k, v) :: ms => (k, ofToml file v) :: ofTomlTable file ms

end

end Value

end OrderDesk.Settings
