import Statechart.Text.Digit
import Statechart.Toml.Basic
set_option autoImplicit false

/-!
# TOML documents: numbers

Integers in four bases and decimal fractions.  An underscore may stand between two digits.  A text can
have the form of an integer without writing one; such a text is told apart from what is no number at
all.
-/

namespace Statechart.Toml

open Statechart.Text

/-- The digits of a number without the underscores between them. -/
def groupedDigits? (base : Nat) : List Char → Option (List Char)
  | [] => none
  | [c] => if (digit? base c).isSome then some [c] else none
  | c :: '_' :: rest =>
    if (digit? base c).isSome then (groupedDigits? base rest).map (c :: ·) else none
  | c :: rest =>
    if (digit? base c).isSome then (groupedDigits? base rest).map (c :: ·) else none

/-- The digits of a whole number, which starts with a zero only if it is zero. -/
def wholeDigits? (cs : List Char) : Option (List Char) :=
  match groupedDigits? 10 cs with
  | some ('0' :: _ :: _) => none
  | digits? => digits?

/-- Divides a sign from the front; `true` is the minus. -/
def splitSign : List Char → Bool × List Char
  | '-' :: rest => (true, rest)
  | '+' :: rest => (false, rest)
  | cs => (false, cs)

/-- The integer with a sign. -/
def signed (negative : Bool) (n : Nat) : Int :=
  if negative then -(n : Int) else n

/-- The integer that is written; bases other than ten take no sign. -/
def integer? (cs : List Char) : Option Int :=
  match cs with
  | '0' :: 'x' :: digits => natural? 16 digits
  | '0' :: 'o' :: digits => natural? 8 digits
  | '0' :: 'b' :: digits => natural? 2 digits
  | _ => do
    let n ← number? 10 (← wholeDigits? (splitSign cs).2)
    some (signed (splitSign cs).1 n)
where
  /-- The natural number that is written in a base. -/
  natural? (base : Nat) (digits : List Char) : Option Int := do
    let n ← number? base (← groupedDigits? base digits)
    some (Int.ofNat n)

/-- Whether every underscore stands between two digits of some base; `afterDigit` tells whether a digit
stands before the text. -/
def underscoresSeparate (afterDigit : Bool) : List Char → Bool
  | [] => true
  | '_' :: rest =>
    afterDigit && rest.head?.any (digit? 16 · |>.isSome) && underscoresSeparate false rest
  | c :: rest => underscoresSeparate (digit? 16 c).isSome rest

/-- Texts with the form of an integer: a base without digits; or decimal digits and an underscore with
anything after it that has no space, no mark of a fraction and no underscore in a wrong place. -/
def hasIntegerForm (cs : List Char) : Bool :=
  match cs with
  | ['0', 'x'] => true
  | ['0', 'o'] => true
  | ['0', 'b'] => true
  | _ =>
    let unsigned := (splitSign cs).2
    unsigned.head?.any (fun c => c.isDigit && c ≠ '0')
      && (unsigned.dropWhile Char.isDigit).head? = some '_'
      && !cs.any (fun c => c = ' ' || c = '.' || c = 'e' || c = 'E')
      && underscoresSeparate false unsigned

/-- Divides the power of ten from a number, if there is one. -/
def splitPower (cs : List Char) : List Char × Option (List Char) :=
  match cs.dropWhile fun c => c ≠ 'e' && c ≠ 'E' with
  | _ :: power => (cs.takeWhile fun c => c ≠ 'e' && c ≠ 'E', some power)
  | [] => (cs, none)

/-- The exponent that is written, which may start with zeros. -/
def exponent? (cs : List Char) : Option Int := do
  let n ← number? 10 (← groupedDigits? 10 (splitSign cs).2)
  some (signed (splitSign cs).1 n)

/-- The least number that is nearer to the end of the range of binary64 than to its last number. -/
def rangeEnd : Nat :=
  Nat.pow 2 1024 - Nat.pow 2 970

/-- Whether digits with a power of ten write a number beyond the range of binary64.  The number of
digits decides all but the close cases. -/
def isTooLarge (digits : List Char) (power : Int) : Bool :=
  let significant := digits.dropWhile (· = '0')
  let size := (significant.length : Int) + power
  if significant.isEmpty || size ≤ 300 then false
  else if 320 ≤ size then true
  else
    match number? 10 significant with
    | some n =>
      let factor := Nat.pow 10 power.natAbs
      if power < 0 then rangeEnd * factor ≤ n else rangeEnd ≤ n * factor
    | none => false

/-- Reads a number with a point or a power of ten; gives whether it is too large. -/
def fraction? (cs : List Char) : Option Bool :=
  let (mantissa, power?) := splitPower cs
  let whole := mantissa.takeWhile (· ≠ '.')
  match mantissa.dropWhile (· ≠ '.'), power? with
  | [], none => none
  | [], some power => do
    some (isTooLarge (← wholeDigits? whole) (← exponent? power))
  | _ :: places, none => do
    let places ← groupedDigits? 10 places
    some (isTooLarge ((← wholeDigits? whole) ++ places) (-(places.length : Int)))
  | _ :: places, some power => do
    let places ← groupedDigits? 10 places
    some (isTooLarge ((← wholeDigits? whole) ++ places) ((← exponent? power) - places.length))

/-- Reads a decimal fraction, the infinite ones and the one that is not a number included. -/
def decimal? (cs : List Char) : Option Bool :=
  match (splitSign cs).2 with
  | ['i', 'n', 'f'] => some false
  | ['n', 'a', 'n'] => some false
  | unsigned => fraction? unsigned

end Statechart.Toml
