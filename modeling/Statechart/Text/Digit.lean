set_option autoImplicit false

/-!
# Text: digits

Numbers written in a base up to sixteen.
-/

namespace Statechart.Text

/-- The value of a digit in a base up to sixteen. -/
def digit? (base : Nat) (c : Char) : Option Nat :=
  let value? :=
    if '0' ≤ c ∧ c ≤ '9' then some (c.toNat - '0'.toNat)
    else if 'a' ≤ c ∧ c ≤ 'f' then some (c.toNat - 'a'.toNat + 10)
    else if 'A' ≤ c ∧ c ≤ 'F' then some (c.toNat - 'A'.toNat + 10)
    else none
  value?.filter (· < base)

/-- The number that digits write after `value`. -/
def numberAfter? (base value : Nat) : List Char → Option Nat
  | [] => some value
  | c :: cs => (digit? base c).bind fun d => numberAfter? base (value * base + d) cs

/-- The number that digits write. -/
def number? (base : Nat) (digits : List Char) : Option Nat :=
  numberAfter? base 0 digits

end Statechart.Text
