import Statechart.Json.Basic
set_option autoImplicit false

/-!
# JSON printing

Two ways to write a value: compactly, without any blank, and laid out with one item per line.  Quotes,
backslashes and control characters are escaped; everything else stands for itself.
-/

namespace Statechart.Json

/-- The hexadecimal digit of a number below sixteen. -/
def hexDigit (n : Nat) : Char :=
  if n < 10 then Char.ofNat (48 + n) else Char.ofNat (87 + n)

/-- A number below 65536 as an escape of four hexadecimal digits. -/
def numericEscape (n : Nat) : List Char :=
  ['\x5c', 'u', hexDigit (n / 4096 % 16), hexDigit (n / 256 % 16), hexDigit (n / 16 % 16),
    hexDigit (n % 16)]

/-- A character inside a string. -/
def escapeChar (c : Char) : List Char :=
  if c = '\x22' then ['\x5c', '\x22']
  else if c = '\x5c' then ['\x5c', '\x5c']
  else if c = '\x08' then ['\x5c', 'b']
  else if c = '\x0c' then ['\x5c', 'f']
  else if c = '\n' then ['\x5c', 'n']
  else if c = '\r' then ['\x5c', 'r']
  else if c = '\t' then ['\x5c', 't']
  else if c.toNat < 32 then numericEscape c.toNat
  else [c]

/-- A unit inside a string. -/
def escapeUnit : TextUnit → List Char
  | .char c => escapeChar c
  | .half code => numericEscape code

/-- A string in its quotes. -/
def quote (units : List TextUnit) : List Char :=
  '\x22' :: (units.flatMap escapeUnit ++ ['\x22'])

namespace Value

mutual

/-- A value without any blank. -/
def compact : Value → List Char
  | .null => ['n', 'u', 'l', 'l']
  | .bool true => ['t', 'r', 'u', 'e']
  | .bool false => ['f', 'a', 'l', 's', 'e']
  | .number digits => digits
  | .string units => quote units
  | .array items => '[' :: (compactItems items ++ [']'])
  | .object members => '\x7b' :: (compactMembers members ++ ['\x7d'])

/-- Items with commas between them. -/
def compactItems : List Value → List Char
  | [] => []
  | [item] => compact item
  | item :: rest => compact item ++ ',' :: compactItems rest

/-- Members with commas between them. -/
def compactMembers : List (List TextUnit × Value) → List Char
  | [] => []
  | [(name, value)] => quote name ++ ':' :: compact value
  | (name, value) :: rest => quote name ++ ':' :: (compact value ++ ',' :: compactMembers rest)

end

/-- The start of a line at a depth: two columns for each level. -/
def newLine (depth : Nat) : List Char :=
  '\n' :: List.replicate (2 * depth) ' '

mutual

/-- A value with one item per line, the value itself being at a depth. -/
def laidOut (depth : Nat) : Value → List Char
  | .null => ['n', 'u', 'l', 'l']
  | .bool true => ['t', 'r', 'u', 'e']
  | .bool false => ['f', 'a', 'l', 's', 'e']
  | .number digits => digits
  | .string units => quote units
  | .array [] => ['[', ']']
  | .array (item :: rest) =>
    '[' :: (laidOutItems (depth + 1) (item :: rest) ++ newLine depth ++ [']'])
  | .object [] => ['\x7b', '\x7d']
  | .object (member :: rest) =>
    '\x7b' :: (laidOutMembers (depth + 1) (member :: rest) ++ newLine depth ++ ['\x7d'])

/-- Items at a depth, each on its line. -/
def laidOutItems (depth : Nat) : List Value → List Char
  | [] => []
  | [item] => newLine depth ++ laidOut depth item
  | item :: rest => newLine depth ++ laidOut depth item ++ ',' :: laidOutItems depth rest

/-- Members at a depth, each on its line. -/
def laidOutMembers (depth : Nat) : List (List TextUnit × Value) → List Char
  | [] => []
  | [(name, value)] => newLine depth ++ quote name ++ ':' :: ' ' :: laidOut depth value
  | (name, value) :: rest =>
    newLine depth ++ quote name ++ ':' :: ' ' :: (laidOut depth value
      ++ ',' :: laidOutMembers depth rest)

end

end Value

end Statechart.Json
