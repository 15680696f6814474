/-!
# Decimal numbers

A decimal is a coefficient times a power of ten. It reads as the nearest binary64 number, and every finite binary64
number is a decimal exactly.
-/

namespace NodeScript

/-- The number `coefficient * 10 ^ exponent`. -/
structure Decimal where
  coefficient : Nat
  exponent : Int
  deriving DecidableEq, Repr

namespace Decimal

/-- The binary64 number nearest to the decimal, ties to even; infinity when it is too large. -/
def toFloat (d : Decimal) : Float :=
  .ofModel (Float.Model.ofScientific d.coefficient d.exponent)

/-- The decimal that equals `mantissa * 2 ^ exponent`. -/
def ofBinary (mantissa : Nat) (exponent : Int) : Decimal :=
  if 0 ≤ exponent then ⟨mantissa * Nat.pow 2 exponent.toNat, 0⟩
  else ⟨mantissa * Nat.pow 5 (-exponent).toNat, exponent⟩

/-- The digits of the coefficient, the most significant first. -/
def digits (d : Decimal) : List Char :=
  Nat.toDigits 10 d.coefficient

/-- Where the decimal point stands, counted from the first digit: the number lies in `[10 ^ (point - 1), 10 ^ point)`. -/
def point (d : Decimal) : Int :=
  d.digits.length + d.exponent

/-- Moves one zero from the end of the coefficient into the exponent, at most `fuel` times. -/
def dropZeros : Nat → Decimal → Decimal
  | 0, d => d
  | fuel + 1, d =>
    if d.coefficient % 10 = 0 ∧ d.coefficient ≠ 0 then dropZeros fuel ⟨d.coefficient / 10, d.exponent + 1⟩ else d

/-- The same number with no zero at the end of its coefficient. -/
def normal (d : Decimal) : Decimal :=
  dropZeros d.digits.length d

end Decimal

end NodeScript
