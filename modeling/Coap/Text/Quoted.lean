import Coap.Text.Unprintable

/-!
# Quoted texts

How an error message shows a text that it refuses: between quotation marks, with the usual
escapes for quotation mark, backslash, tab, line ends and the null character, and with the number
of every other character that is unprintable or would join the one before it.
-/

namespace Coap.Text

/-- A character by its number, as in `\u\x7b1b\x7d` with the braces written out. -/
def numbered (c : Char) : List Char :=
  ['\\', 'u', '\x7b'] ++ Nat.toDigits 16 c.toNat ++ ['\x7d']

/-- A character inside quotation marks. -/
def quotedChar (c : Char) : List Char :=
  if c = '\x00' then ['\\', '0']
  else if c = '\t' then ['\\', 't']
  else if c = '\r' then ['\\', 'r']
  else if c = '\n' then ['\\', 'n']
  else if c = '"' then ['\\', '"']
  else if c = '\\' then ['\\', '\\']
  else if isUnprintable c then numbered c
  else [c]

/-- A text between quotation marks. -/
def quoted (text : String) : String :=
  String.ofList ('"' :: text.toList.flatMap quotedChar ++ ['"'])

end Coap.Text
