import Statechart.Markup.Fault
import Statechart.Text.Bytes
import Statechart.Text.Digit
set_option autoImplicit false

/-!
# Markup: entities

An attribute's value is written with entities: `&` name `;` for the five characters that markup
itself uses, and `&#` number `;` for any character.  `expand` replaces each entity by its character
and leaves everything else as it stands.
-/

namespace Statechart.Markup

open Statechart.Text

/-- The characters that have an entity name of their own. -/
def namedCharacter? : List Char → Option Char
  | ['l', 't'] => some '<'
  | ['g', 't'] => some '>'
  | ['a', 'm', 'p'] => some '&'
  | ['a', 'p', 'o', 's'] => some '\x27'
  | ['q', 'u', 'o', 't'] => some '\x22'
  | _ => none

/-- Reads digits from left to right after `value`; a wrong digit is noticed before an overflow that
it would cause. -/
def readDigits (base value : Nat) : List Char → Except EntityFault Nat
  | [] => .ok value
  | c :: cs =>
    match digit? base c with
    | none => .error .invalidDigit
    | some d =>
      if value * base + d < 2 ^ 32 then readDigits base (value * base + d) cs
      else .error .numberTooLarge

/-- Reads a character number, which has no sign. -/
def readNumber (base : Nat) : List Char → Except EntityFault Nat
  | [] => .error .emptyNumber
  | c :: cs =>
    if c = '+' ∨ c = '-' then .error .signedNumber else readDigits base 0 (c :: cs)

/-- The character with a given number. -/
def numberedCharacter (code : Nat) : Except EntityFault Char :=
  if code = 0 then .error .nullCharacter
  else if code.isValidChar then .ok (Char.ofNat code)
  else .error (.notCharacter code)

/-- The character that an entity stands for, `body` being what its `&` and `;` enclose. -/
def entityCharacter (start stop : Nat) (body : List Char) : Except EntityFault Char :=
  match body with
  | '#' :: 'x' :: digits => readNumber 16 digits >>= numberedCharacter
  | '#' :: digits => readNumber 10 digits >>= numberedCharacter
  | name =>
    match namedCharacter? name with
    | some c => .ok c
    | none => .error (.unrecognized start stop (String.ofList name))

/-- Characters that may stand between the `&` and the `;` of an entity. -/
def isEntityBody (c : Char) : Bool :=
  c ≠ '&' && c ≠ ';'

/-- Expands the entities in the suffix `cs` of the value `whole`. -/
def expandFrom (whole cs : List Char) : Except EntityFault (List Char) :=
  match cs with
  | [] => .ok []
  | c :: cs =>
    if c = '&' then
      match _h : cs.dropWhile isEntityBody with
      | ';' :: rest => do
        let character ←
          entityCharacter (position whole cs) (position whole (';' :: rest))
            (cs.takeWhile isEntityBody)
        let tail ← expandFrom whole rest
        pure (character :: tail)
      | _ => .error (.unterminated (position whole (c :: cs)) (byteSize whole))
    else do
      let tail ← expandFrom whole cs
      pure (c :: tail)
termination_by cs.length
decreasing_by
  · have hle := (List.dropWhile_suffix (l := cs) isEntityBody).length_le
    rw [_h] at hle
    simp only [List.length_cons] at hle ⊢
    omega
  · simp

/-- The text that a value stands for. -/
def expand (value : List Char) : Except EntityFault (List Char) :=
  expandFrom value value

end Statechart.Markup
