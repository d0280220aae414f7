set_option autoImplicit false

/-!
# Decimals: binary numbers of 53 digits

A quotient of two counts is reported as the binary number of 53 significant digits that is nearest
to it, halves going to the even neighbour.  The number is kept exactly, as an integer times a power
of two.
-/

namespace Statechart.Decimal

/-- The number `significand * 2 ^ exponent`. -/
structure Binary where
  significand : Nat
  exponent : Int
  deriving DecidableEq, Repr, Inhabited

/-- The quotient of two numbers, rounded to an integer; a half goes to the even neighbour. -/
def roundHalfEven (num den : Nat) : Nat :=
  let floor := num / den
  let twice := 2 * (num % den)
  if den < twice ∨ (twice = den ∧ floor % 2 = 1) then floor + 1 else floor

/-- Numerator of the quotient `num / den` divided by `2 ^ exponent`. -/
def scaledNum (num : Nat) (exponent : Int) : Nat :=
  num * Nat.pow 2 (-exponent).toNat

/-- Denominator of the quotient `num / den` divided by `2 ^ exponent`. -/
def scaledDen (den : Nat) (exponent : Int) : Nat :=
  den * Nat.pow 2 exponent.toNat

/-- The exponent for which the quotient of two positive numbers has 53 binary digits before the
point. -/
def quotientExponent (num den : Nat) : Int :=
  let guess : Int := (num.log2 : Int) - den.log2 - 52
  if scaledNum num guess / scaledDen den guess < Nat.pow 2 52 then guess - 1 else guess

/-- The binary number nearest to the quotient of two positive numbers. -/
def Binary.ofQuotient (num den : Nat) : Binary :=
  let exponent := quotientExponent num den
  let significand := roundHalfEven (scaledNum num exponent) (scaledDen den exponent)
  if significand = Nat.pow 2 53 then ⟨Nat.pow 2 52, exponent + 1⟩ else ⟨significand, exponent⟩

end Statechart.Decimal
