import Statechart.Decimal.Binary
set_option autoImplicit false

/-!
# Decimals: the fewest digits that read back

A binary number is written with the fewest decimal digits that still tell it from its binary
neighbours, and among those with the digits nearest to it.
-/

namespace Statechart

/-- The number `digits * 10 ^ scale`. -/
structure Decimal where
  digits : Nat
  scale : Int
  deriving DecidableEq, Repr, Inhabited

namespace Decimal

/-- A binary number with the range of numbers that round to it, all over one denominator. -/
structure RoundingRange where
  low : Nat
  value : Nat
  high : Nat
  den : Nat
  closed : Bool
  deriving DecidableEq, Repr, Inhabited

/-- The range of numbers that round to a binary number.  Below a power of two the neighbours are
twice as close; the ends belong to the range if the significand is even. -/
def Binary.range (b : Binary) : RoundingRange :=
  let up := Nat.pow 2 b.exponent.toNat
  let below := if b.significand = Nat.pow 2 52 then 1 else 2
  { low := (4 * b.significand - below) * up
    value := 4 * b.significand * up
    high := (4 * b.significand + 2) * up
    den := 4 * Nat.pow 2 (-b.exponent).toNat
    closed := b.significand % 2 = 0 }

namespace RoundingRange

/-- Whether `digits * 10 ^ scale` lies in the range. -/
def holds (r : RoundingRange) (digits : Nat) (scale : Int) : Bool :=
  let point := digits * r.den * Nat.pow 10 scale.toNat
  let unit := Nat.pow 10 (-scale).toNat
  if r.closed then r.low * unit ≤ point && point ≤ r.high * unit
  else r.low * unit < point && point < r.high * unit

/-- The least `k` with value below `10 ^ k`, for values of ordinary size. -/
def magnitude (r : RoundingRange) : Int :=
  let whole := r.value / r.den
  let leadingZeros? := (List.range 400).find? (fun n => r.den ≤ r.value * Nat.pow 10 (n + 1))
  if whole = 0 then Int.neg (leadingZeros?.getD 0)
  else (Nat.toDigits 10 whole).length

/-- The decimal of `count` digits that lies in the range and is nearest to the value. -/
def decimalOf? (r : RoundingRange) (count : Nat) : Option Decimal :=
  let scale := r.magnitude - count
  let num := r.value * Nat.pow 10 (-scale).toNat
  let den := r.den * Nat.pow 10 scale.toNat
  let floor := num / den
  let lower := r.holds floor scale
  let upper := r.holds (floor + 1) scale
  if lower && (!upper || 2 * (num % den) ≤ den) then some ⟨floor, scale⟩
  else if upper then some ⟨floor + 1, scale⟩
  else none

end RoundingRange

/-- The shortest decimal that reads back as a binary number. -/
def Binary.shortest (b : Binary) : Decimal :=
  ((List.range 17).findSome? fun n => b.range.decimalOf? (n + 1)).getD ⟨0, 0⟩

/-- The decimal for the quotient of two counts; a quotient with a zero in it counts as zero. -/
def ofQuotient (num den : Nat) : Decimal :=
  if num = 0 ∨ den = 0 then ⟨0, 0⟩ else (Binary.ofQuotient num den).shortest

/-- The digits of a decimal without zeros at their end, and the scale that goes with them. -/
def significant (d : Decimal) : List Char × Int :=
  let digits := Nat.toDigits 10 d.digits
  let kept := (digits.reverse.dropWhile (· = '0')).reverse
  (kept, d.scale + (digits.length - kept.length : Nat))

/-- Zeros that fill up to a number of places. -/
def zeros (n : Nat) : List Char :=
  List.replicate n '0'

/-- The text of a decimal: positional from a hundred-thousandth up to sixteen places before the
point, with at least one place after it, else with a power of ten. -/
def text (d : Decimal) : String :=
  if d.digits = 0 then "0.0"
  else
    let (digits, scale) := d.significant
    let point : Int := digits.length + scale
    String.ofList <|
      if 0 ≤ scale ∧ point ≤ 16 then digits ++ zeros scale.toNat ++ ['.', '0']
      else if 0 < point ∧ point ≤ 16 then
        digits.take point.toNat ++ ['.'] ++ digits.drop point.toNat
      else if -5 < point ∧ point ≤ 0 then ['0', '.'] ++ zeros (-point).toNat ++ digits
      else
        let fraction := if digits.length ≤ 1 then [] else '.' :: digits.drop 1
        digits.take 1 ++ fraction ++ ['e'] ++ (toString (point - 1)).toList

end Decimal

end Statechart
