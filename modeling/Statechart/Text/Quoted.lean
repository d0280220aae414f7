import Statechart.Text.Printable
set_option autoImplicit false

/-!
# Text: quoted texts

Texts in messages stand in double quotes, with everything that does not show written as an escape.
-/

namespace Statechart.Text

/-- A character as an escape with its number in hexadecimal digits. -/
def numberedEscape (c : Char) : List Char :=
  ['\x5c', 'u', '\x7b'] ++ Nat.toDigits 16 c.toNat ++ ['\x7d']

/-- A character inside double quotes. -/
def quotedChar (c : Char) : List Char :=
  if c = '\x00' then ['\x5c', '0']
  else if c = '\t' then ['\x5c', 't']
  else if c = '\r' then ['\x5c', 'r']
  else if c = '\n' then ['\x5c', 'n']
  else if c = '\x22' then ['\x5c', '\x22']
  else if c = '\x5c' then ['\x5c', '\x5c']
  else if isPrintable c then [c]
  else numberedEscape c

/-- A text in double quotes. -/
def quoted (text : String) : String :=
  String.ofList ('\x22' :: (text.toList.flatMap quotedChar ++ ['\x22']))

end Statechart.Text
