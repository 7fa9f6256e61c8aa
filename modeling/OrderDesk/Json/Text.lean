import OrderDesk.Json.Reader
import OrderDesk.Text.Hex

/-! # JSON strings

Writing escapes the quote, the backslash and the bytes below `0x20`, nothing else. Reading
undoes every escape, joins surrogate pairs, and wants the outcome to be UTF-8.

* `Text.write`: a string between quotes;
* `Text.read`: the string after an opening quote;
* `Text.skip`: passes over a string without looking at surrogates or UTF-8. -/

namespace OrderDesk.Json.Text

open OrderDesk.Text (hexByte?)

/-- Lower case hexadecimal digit. -/
def hexChar (n : Nat) : Char := Nat.digitChar n

def writeChar (c : Char) : List Char :=
  match c with
  | '"' => ['\\', '"']
  | '\\' => ['\\', '\\']
  | '\n' => ['\\', 'n']
  | '\r' => ['\\', 'r']
  | '\t' => ['\\', 't']
  | '\x08' => ['\\', 'b']
  | '\x0c' => ['\\', 'f']
  | c =>
    if c.toNat < 0x20 then
      ['\\', 'u', '0', '0', hexChar (c.toNat / 16), hexChar (c.toNat % 16)]
    else [c]

def write (s : String) : List Char := '"' :: s.toList.flatMap writeChar ++ ['"']

/-- The code unit after `\u`: four hexadecimal digits. -/
def codeUnit : Bytes → Except Fault (Nat × Bytes)
  | a :: b :: c :: d :: s =>
    match hexByte? a, hexByte? b, hexByte? c, hexByte? d with
    | some a, some b, some c, some d => .ok (((a * 16 + b) * 16 + c) * 16 + d, s)
    | _, _, _, _ => .error (here .invalidEscape s)
  | _ => .error (here .eofString [])

def isHighSurrogate (n : Nat) : Bool := 0xD800 ≤ n && n ≤ 0xDBFF

def isLowSurrogate (n : Nat) : Bool := 0xDC00 ≤ n && n ≤ 0xDFFF

/-- What follows a high surrogate has to be the escape of a low one. -/
def lowSurrogate : Bytes → Except Fault (Nat × Bytes)
  | [] => .error (here .eofString [])
  | b :: s =>
    if b ≠ 0x5C then .error (here .endOfHexEscape s)
    else
      match s with
      | [] => .error (here .eofString [])
      | b :: s =>
        if b ≠ 0x75 then .error (here .endOfHexEscape s)
        else
          match codeUnit s with
          | .error f => .error f
          | .ok (n, s) => if isLowSurrogate n then .ok (n, s) else .error (here .loneSurrogate s)

/-- The character of `\u` escapes, as UTF-8. -/
def unicodeEscape (s : Bytes) : Except Fault (Bytes × Bytes) :=
  match codeUnit s with
  | .error f => .error f
  | .ok (n, s) =>
    if isLowSurrogate n then .error (here .loneSurrogate s)
    else if isHighSurrogate n then
      match lowSurrogate s with
      | .error f => .error f
      | .ok (m, s) =>
        .ok (String.utf8EncodeChar (.ofNat (0x10000 + (n - 0xD800) * 0x400 + (m - 0xDC00))), s)
    else .ok (String.utf8EncodeChar (.ofNat n), s)

/-- The byte that a letter after a backslash stands for. -/
def simpleEscape (b : UInt8) : Option UInt8 :=
  if b = 0x22 then some 0x22
  else if b = 0x5C then some 0x5C
  else if b = 0x2F then some 0x2F
  else if b = 0x62 then some 0x08
  else if b = 0x66 then some 0x0C
  else if b = 0x6E then some 0x0A
  else if b = 0x72 then some 0x0D
  else if b = 0x74 then some 0x09
  else none

/-- The bytes of the escape after a backslash. -/
def escape : Bytes → Except Fault (Bytes × Bytes)
  | [] => .error (here .eofString [])
  | b :: s =>
    if b = 0x75 then unicodeEscape s
    else
      match simpleEscape b with
      | some b => .ok ([b], s)
      | none => .error (here .invalidEscape s)

/-- The unescaped bytes up to the closing quote. -/
def contents : (fuel : Nat) → Bytes → Except Fault (Bytes × Bytes)
  | 0, s => .error (here .eofString s)
  | _ + 1, [] => .error (here .eofString [])
  | fuel + 1, b :: s =>
    if b = 0x22 then .ok ([], s)
    else if b = 0x5C then
      match escape s with
      | .error f => .error f
      | .ok (bytes, s) =>
        match contents fuel s with
        | .error f => .error f
        | .ok (more, s) => .ok (bytes ++ more, s)
    else if b < 0x20 then .error (here .controlCharacter s)
    else
      match contents fuel s with
      | .error f => .error f
      | .ok (more, s) => .ok (b :: more, s)

/-- The string after an opening quote. Bytes that are no UTF-8 are reported as far before the
end of the string as there are bytes from the first ill-formed one on. -/
def read : Reader String := fun s =>
  match contents s.length s with
  | .error f => .error f
  | .ok (bytes, s) =>
    match Text.Utf8.decode? bytes with
    | some cs => .ok (.ofList cs, s)
    | none =>
      .error ⟨.invalidCodePoint, s.length + (bytes.length - Text.Utf8.validLength bytes)⟩

/-- What a backslash in a skipped string needs: a known letter, or four hexadecimal digits. -/
def skipEscape : Bytes → Except Fault Bytes
  | [] => .error (here .eofString [])
  | b :: s =>
    if b = 0x75 then
      match codeUnit s with
      | .error f => .error f
      | .ok (_, s) => .ok s
    else if (simpleEscape b).isSome then .ok s
    else .error (here .invalidEscape s)

def skipContents : (fuel : Nat) → Bytes → Except Fault Bytes
  | 0, s => .error (here .eofString s)
  | _ + 1, [] => .error (here .eofString [])
  | fuel + 1, b :: s =>
    if b = 0x22 then .ok s
    else if b = 0x5C then
      match skipEscape s with
      | .error f => .error f
      | .ok s => skipContents fuel s
    else if b < 0x20 then .error (here .controlCharacter (b :: s))
    else skipContents fuel s

def skip (s : Bytes) : Except Fault Bytes := skipContents s.length s

end OrderDesk.Json.Text
