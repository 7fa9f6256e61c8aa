import OrderDesk.Text.Hex
import OrderDesk.Text.Hidden

/-! # Quoted text

A text between double quotes, for messages that show a value to a person: the quote and the
backslash are escaped, tab, line feed, carriage return and NUL have letters of their own, and
a character without a shape is written by its code point. -/

namespace OrderDesk.Text

def quotedChar (c : Char) : List Char :=
  match c with
  | '\x00' => ['\\', '0']
  | '\t' => ['\\', 't']
  | '\n' => ['\\', 'n']
  | '\r' => ['\\', 'r']
  | '"' => ['\\', '"']
  | '\\' => ['\\', '\\']
  | c => if isHidden c then "\\u\x7b".toList ++ hex c.toNat ++ ['\x7d'] else [c]

def quoted (s : String) : String :=
  .ofList ('"' :: s.toList.flatMap quotedChar ++ ['"'])

end OrderDesk.Text
