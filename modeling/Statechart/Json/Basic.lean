set_option autoImplicit false

/-!
# JSON values

The values of the JSON data format.  A string is a row of units: characters, and the surrogate halves
that an escape may write on their own.  Not every string is therefore a text; `textOf?` tells
those that are.  Members of objects keep their order, and names may repeat.
-/

namespace Statechart.Json

/-- A unit of a JSON string. -/
inductive TextUnit where
  /-- a character -/
  | char (c : Char)
  /-- a surrogate, which is half of a character -/
  | half (code : Nat)
  deriving DecidableEq, Repr

/-- The units of a text. -/
def unitsOf (text : String) : List TextUnit :=
  text.toList.map .char

/-- The character that two surrogates make up together. -/
def joinHalves? (high low : Nat) : Option Char :=
  if 0xD800 ≤ high ∧ high < 0xDC00 ∧ 0xDC00 ≤ low ∧ low < 0xE000 then
    some (Char.ofNat (0x10000 + (high - 0xD800) * 0x400 + (low - 0xDC00)))
  else none

/-- The characters that units stand for, unless a surrogate lacks its other half. -/
def charsOf? : List TextUnit → Option (List Char)
  | [] => some []
  | .char c :: units => (charsOf? units).map (c :: ·)
  | .half high :: .half low :: units =>
    match joinHalves? high low with
    | some c => (charsOf? units).map (c :: ·)
    | none => none
  | .half _ :: _ => none

/-- The text that units stand for. -/
def textOf? (units : List TextUnit) : Option String :=
  (charsOf? units).map String.ofList

theorem charsOf?_map_char (cs : List Char) : charsOf? (cs.map .char) = some cs := by
  induction cs with
  | nil => rfl
  | cons c cs ih => simp [charsOf?, ih]

@[simp] theorem textOf?_unitsOf (text : String) : textOf? (unitsOf text) = some text := by
  simp [textOf?, unitsOf, charsOf?_map_char]

/-- A JSON value.  A number is kept as it is written. -/
inductive Value where
  | null
  | bool (b : Bool)
  | number (digits : List Char)
  | string (units : List TextUnit)
  | array (items : List Value)
  | object (members : List (List TextUnit × Value))
  deriving Repr, Inhabited

namespace Value

/-- The value that holds a text. -/
def text (s : String) : Value :=
  .string (unitsOf s)

/-- The value that holds a count. -/
def count (n : Nat) : Value :=
  .number (Nat.toDigits 10 n)

/-- The value that holds texts in order. -/
def texts (ss : List String) : Value :=
  .array (ss.map text)

/-- The value that holds a text or nothing. -/
def text? : Option String → Value
  | some s => text s
  | none => .null

/-- The object with given members. -/
def record (members : List (String × Value)) : Value :=
  .object (members.map fun (name, value) => (unitsOf name, value))

end Value

end Statechart.Json
