import OrderDesk.Json.Number
import OrderDesk.Json.Text

/-! # Passing over JSON values

The value of an unknown member is checked for its form and dropped. Containers may nest as
deep as the text goes: the open ones are kept on a stack, innermost first.

* `Frame`: an open container;
* `afterValue`: what a finished value leads to;
* `skipValue`: passes over one value of any kind. -/

namespace OrderDesk.Json

inductive Frame where
  | list
  | object
  deriving DecidableEq, Repr

namespace Frame

def closing : Frame → UInt8
  | .list => 0x5D
  | .object => 0x7D

def eof : Frame → Cause
  | .list => .eofList
  | .object => .eofObject

def commaOrEnd : Frame → Cause
  | .list => .expectedListCommaOrEnd
  | .object => .expectedObjectCommaOrEnd

end Frame

/-- The colon between a key and its value. -/
def colon (s : Bytes) : Except Fault Bytes :=
  match skipBlank s with
  | [] => .error (peek .eofObject [])
  | b :: s => if b = 0x3A then .ok s else .error (peek .expectedColon (b :: s))

def skipKey (s : Bytes) : Except Fault Bytes :=
  match skipBlank s with
  | [] => .error (peek .eofObject [])
  | b :: s =>
    if b = 0x22 then
      match Text.skip s with
      | .error f => .error f
      | .ok s => colon s
    else .error (peek .keyMustBeString (b :: s))

/-- In a list the next value is due at once, in an object after a key. -/
def Frame.next (f : Frame) (s : Bytes) : Except Fault Bytes :=
  match f with
  | .list => .ok s
  | .object => skipKey s

/-- After a value: closes every container that ends here, and stops where the next value is
due. Nothing is due once no container is open. -/
def afterValue : List Frame → Bytes → Except Fault (List Frame × Bytes)
  | [], s => .ok ([], s)
  | f :: outer, s =>
    match skipBlank s with
    | [] => .error (peek f.eof [])
    | b :: s =>
      if b = 0x2C then (f.next s).map (f :: outer, ·)
      else if b = f.closing then afterValue outer s
      else .error (peek f.commaOrEnd (b :: s))

/-- After an opening bracket: the container is empty, or its first value is due. -/
def afterOpening (f : Frame) (outer : List Frame) (s : Bytes) :
    Except Fault (List Frame × Bytes) :=
  match skipBlank s with
  | [] => .error (peek f.eof [])
  | b :: s =>
    if b = f.closing then afterValue outer s
    else (f.next (b :: s)).map (f :: outer, ·)

/-- Passes one scalar, or the opening bracket of a container, where a value is due. -/
def skipStep (outer : List Frame) (s : Bytes) : Except Fault (List Frame × Bytes) :=
  match skipBlank s with
  | [] => .error (peek .eofValue [])
  | b :: s =>
    if b = 0x6E then (ident [0x75, 0x6C, 0x6C] s).bind (afterValue outer)
    else if b = 0x74 then (ident [0x72, 0x75, 0x65] s).bind (afterValue outer)
    else if b = 0x66 then (ident [0x61, 0x6C, 0x73, 0x65] s).bind (afterValue outer)
    else if b = 0x2D || isDigit b then (Number.skip (b :: s)).bind (afterValue outer)
    else if b = 0x22 then (Text.skip s).bind (afterValue outer)
    else if b = 0x5B then afterOpening .list outer s
    else if b = 0x7B then afterOpening .object outer s
    else .error (peek .expectedValue (b :: s))

def skipLoop : (fuel : Nat) → List Frame → Bytes → Except Fault Bytes
  | 0, _, s => .error (here .eofValue s)
  | fuel + 1, outer, s =>
    match skipStep outer s with
    | .error f => .error f
    | .ok ([], s) => .ok s
    | .ok (f :: outer, s) => skipLoop fuel (f :: outer) s

def skipValue (s : Bytes) : Except Fault Bytes := skipLoop (s.length + 1) [] s

end OrderDesk.Json
