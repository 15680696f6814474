import NodeScript.Decimal.Basic

/-!
# The shortest decimal that reads back

Of the decimals that read as a given number, the one with the fewest digits, and of those the nearest. Seventeen digits
always suffice; the decimal that equals the number stands behind the search.
-/

namespace NodeScript.Decimal

/-- The positive number `numerator / denominator` on the grid of multiples of `10 ^ exponent`: the grid points next to it,
the nearer first and the upper first when it lies half way. A point of the grid is its only neighbour. -/
def neighbours (numerator denominator : Nat) (exponent : Int) : List Decimal :=
  let num := numerator * Nat.pow 10 (-exponent).toNat
  let den := denominator * Nat.pow 10 exponent.toNat
  let low := num / den
  let rest := num % den
  if rest = 0 then [⟨low, exponent⟩]
  else if 2 * rest < den then [⟨low, exponent⟩, ⟨low + 1, exponent⟩]
  else [⟨low + 1, exponent⟩, ⟨low, exponent⟩]

/-- The number of digits before the decimal point of `numerator / denominator`, zero or negative below one tenth and so
on. It is right for numbers from `10 ^ (-324)` on, which every positive binary64 number is. -/
def magnitude (numerator denominator : Nat) : Int :=
  ((Nat.toDigits 10 (numerator * Nat.pow 10 324 / denominator)).length : Int) - 324

/-- The first decimal that reads as `x` among those with one digit, then two, up to seventeen, when the number is
`mantissa * 2 ^ exponent`. -/
def shortest? (x : Float) (mantissa : Nat) (exponent : Int) : Option Decimal :=
  let numerator := mantissa * Nat.pow 2 exponent.toNat
  let denominator := Nat.pow 2 (-exponent).toNat
  let size := magnitude numerator denominator
  (List.range 17).findSome? fun (n : Nat) =>
    (neighbours numerator denominator (size - n - 1)).find? fun d => d.toFloat = x

/-- The decimal with the fewest digits that reads as the positive number `x`, which is `mantissa * 2 ^ exponent`. -/
def shortest (x : Float) (mantissa : Nat) (exponent : Int) : Decimal :=
  ((shortest? x mantissa exponent).getD (ofBinary mantissa exponent)).normal

end NodeScript.Decimal
