import OrderDesk.Text.Hex
import OrderDesk.Text.Utf8

/-! # Request targets

The path and the query of a target. A fragment is dropped. Bytes may be written as a percent
sign with two hexadecimal digits; a percent sign without them stands for itself.

* `Target.ofText`: the parts of a target;
* `percentDecode`: the bytes of a text;
* `formPairs`: the names and values of a query. -/

namespace OrderDesk.Http

structure Target where
  path : String
  query : String
  deriving DecidableEq, Repr

namespace Target

/-- What comes before the first `c`, and what comes after it if there is one. -/
def cut (c : Char) (s : List Char) : List Char × List Char :=
  (s.takeWhile (· != c), (s.dropWhile (· != c)).drop 1)

def pieces (c : Char) : List Char → List (List Char)
  | [] => [[]]
  | d :: s =>
    if d = c then [] :: pieces c s
    else
      match pieces c s with
      | [] => [[d]]
      | p :: ps => (d :: p) :: ps

/-- The text behind a scheme and an authority. -/
def afterAuthority (s : List Char) : List Char :=
  match s with
  | ':' :: '/' :: '/' :: rest => rest.dropWhile fun c => c != '/' && c != '?' && c != '#'
  | _ :: rest => afterAuthority rest
  | [] => []

def ofText (s : String) : Target :=
  let s := s.toList
  let s := if s.head? == some '/' || s.head? == some '*' then s else afterAuthority s
  let (path, query) := cut '?' (cut '#' s).1
  { path := if path.isEmpty then "/" else .ofList path, query := .ofList query }

/-- The parts of the path between its slashes; a path starts with one. -/
def segments (t : Target) : List (List Char) := (pieces '/' t.path.toList).drop 1

end Target

/-! ## Escapes -/

/-- The byte that is written by a percent sign and what follows it. -/
def escaped? (b : UInt8) : Bytes → Option UInt8
  | h :: l :: _ =>
    match Text.hexByte? h, Text.hexByte? l with
    | some x, some y => if b = 0x25 then some (.ofNat (x * 16 + y)) else none
    | _, _ => none
  | _ => none

/-- The bytes with their escapes resolved, after the first `skip` of them. -/
def unescapeAfter : (skip : Nat) → Bytes → Bytes
  | _, [] => []
  | skip + 1, _ :: rest => unescapeAfter skip rest
  | 0, b :: rest =>
    match escaped? b rest with
    | some v => v :: unescapeAfter 2 rest
    | none => b :: unescapeAfter 0 rest

def percentDecode (s : List Char) : Bytes := unescapeAfter 0 (Text.Utf8.encode s)

/-! ## Queries -/

/-- A name or value of a query; a plus sign stands for a space. -/
def formText (s : List Char) : String :=
  (percentDecode (s.map fun c => if c = '+' then ' ' else c)).toStringLossy

def formPairs (query : String) : List (String × String) :=
  (Target.pieces '&' query.toList).filterMap fun pair =>
    if pair.isEmpty then none
    else
      let (name, value) := Target.cut '=' pair
      some (formText name, formText value)

end OrderDesk.Http
