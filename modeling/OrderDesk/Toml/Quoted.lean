import OrderDesk.Text.Hex
import OrderDesk.Toml.Value

/-! # Quoted text in TOML

Text in double quotes has escapes, text in single quotes has none. Three quotes open a text over
several lines, which drops a line end that comes first and keeps the others as they are written.

* `basic`, `literal`: text on one line, after its opening quote;
* `basicBlock`, `literalBlock`: text over several lines, after its opening quotes;
* `Quoted.read?`: any of the four. -/

namespace OrderDesk.Toml.Quoted

def ofHex? (digits : List Char) : Option Char :=
  let n := Text.hexValue 16 digits
  if digits.all Text.isHexDigit ∧ n.isValidChar then some (.ofNat n) else none

def ofLetter? : Char → Option Char
  | 'b' => some '\x08'
  | 't' => some '\t'
  | 'n' => some '\n'
  | 'f' => some '\x0c'
  | 'r' => some '\r'
  | 'e' => some '\x1b'
  | '"' => some '"'
  | '\\' => some '\\'
  | _ => none

/-- How many hexadecimal digits follow the letter of an escape. -/
def escapeWidth : Char → Nat
  | 'x' => 2
  | 'u' => 4
  | 'U' => 8
  | _ => 0

/-- The character of an escape, after its backslash. -/
def escape : Reader Char
  | [] => none
  | c :: s =>
    let width := escapeWidth c
    if width = 0 then (ofLetter? c).map fun c => (c, s)
    else if s.length < width then none
    else (ofHex? (s.take width)).map fun c => (c, s.drop width)

def basicBody : (fuel : Nat) → Reader (List Char)
  | 0, _ | _, [] => none
  | fuel + 1, c :: s =>
    if c == '"' then some ([], s)
    else if c == '\\' then do
      let (c, s) ← escape s
      let (t, s) ← basicBody fuel s
      pure (c :: t, s)
    else if isPlain c then do
      let (t, s) ← basicBody fuel s
      pure (c :: t, s)
    else none

def basic : Reader (List Char) := fun s => basicBody (s.length + 1) s

def literal : Reader (List Char) := fun s =>
  let t := s.takeWhile (· != '\'')
  match s.dropWhile (· != '\'') with
  | [] => none
  | _ :: rest => if t.all isPlain then some (t, rest) else none

/-- The quotes that end a text over several lines, of which the last three close it: there may be
two more. -/
def closing? (quote : Char) (s : List Char) : Option (List Char × List Char) :=
  let n := min 5 (s.takeWhile (· == quote)).length
  if 3 ≤ n then some (List.replicate (n - 3) quote, s.drop n) else none

/-- What follows a backslash at the end of a line: the blanks and line ends after it are not part
of the text. -/
def lineEnd? (s : List Char) : Option (List Char) :=
  (newline? (skipBlank s)).map skipBlankLines

/-- The character stands for itself in a text over several lines, before `rest`. A carriage return
does so as part of a line end only. -/
def isBlockChar (c : Char) (rest : List Char) : Bool :=
  isPlain c || c == '\n' || (c == '\r' && rest.head? == some '\n')

def basicBlockBody : (fuel : Nat) → Reader (List Char)
  | 0, _ => none
  | fuel + 1, s =>
    match closing? '"' s with
    | some ended => some ended
    | none =>
      match s with
      | [] => none
      | c :: s =>
        if c == '\\' then
          match lineEnd? s with
          | some s => basicBlockBody fuel s
          | none => do
            let (c, s) ← escape s
            let (t, s) ← basicBlockBody fuel s
            pure (c :: t, s)
        else if isBlockChar c s then do
          let (t, s) ← basicBlockBody fuel s
          pure (c :: t, s)
        else none

/-- Text without escapes up to the quotes that end it. -/
def literalBlockBody : (fuel : Nat) → Reader (List Char)
  | 0, _ => none
  | fuel + 1, s =>
    match closing? '\'' s with
    | some ended => some ended
    | none =>
      match s with
      | [] => none
      | c :: s =>
        if isBlockChar c s then do
          let (t, s) ← literalBlockBody fuel s
          pure (c :: t, s)
        else none

def dropNewline (s : List Char) : List Char := (newline? s).getD s

def basicBlock : Reader (List Char) := fun s => basicBlockBody (s.length + 1) (dropNewline s)

def literalBlock : Reader (List Char) := fun s => literalBlockBody (s.length + 1) (dropNewline s)

def read? : Reader String := fun s =>
  let text : Option (List Char × List Char) :=
    match s with
    | '"' :: '"' :: '"' :: s => basicBlock s
    | '\'' :: '\'' :: '\'' :: s => literalBlock s
    | '"' :: s => basic s
    | '\'' :: s => literal s
    | _ => none
  text.map fun (t, rest) => (.ofList t, rest)

/-- The text at the head, which has to stand on one line. -/
def readLine? : Reader String := fun s =>
  let text : Option (List Char × List Char) :=
    match s with
    | '"' :: s => basic s
    | '\'' :: s => literal s
    | _ => none
  text.map fun (t, rest) => (.ofList t, rest)

end OrderDesk.Toml.Quoted
