import NodeScript.Decimal.Shortest

/-!
# The text of a number

A layout says when a number is written positionally and how an exponent looks otherwise. The digits are always the
shortest that read back, and a number written positionally always has a point.
-/

namespace NodeScript

namespace Decimal

/-- How the digits of a number are laid out. -/
structure Layout where
  /-- The decimal point is written positionally when it stands right of this place. -/
  above : Int
  /-- The decimal point is written positionally when it stands at this place or left of it. -/
  upTo : Int
  /-- Whether an exponent that is not negative has a plus sign. -/
  plus : Bool
  /-- The least number of digits of an exponent. -/
  width : Nat

/-- Digits with the point after the first `point` of them, filled up with zeros; one digit at least on either side. -/
def positional (digits : List Char) (point : Int) : List Char :=
  if point ≤ 0 then ['0', '.'] ++ List.replicate (-point).toNat '0' ++ digits
  else if digits.length ≤ point.toNat then digits ++ List.replicate (point.toNat - digits.length) '0' ++ ['.', '0']
  else digits.take point.toNat ++ '.' :: digits.drop point.toNat

/-- Digits with the point after the first of them, if there are more, and a power of ten. -/
def Layout.scientific (l : Layout) (digits : List Char) (power : Int) : List Char :=
  let fraction := if digits.length ≤ 1 then [] else '.' :: digits.drop 1
  let sign := if power < 0 then ['-'] else if l.plus then ['+'] else []
  let exponent := Nat.toDigits 10 power.natAbs
  digits.take 1 ++ fraction ++ 'e' :: sign ++ List.replicate (l.width - exponent.length) '0' ++ exponent

/-- The text of a decimal. -/
def Layout.text (l : Layout) (d : Decimal) : List Char :=
  if l.above < d.point ∧ d.point ≤ l.upTo then positional d.digits d.point
  else l.scientific d.digits (d.point - 1)

/-- The text of a binary64 number. -/
def Layout.floatText (l : Layout) (x : Float) : String :=
  match x.toModel.unpack with
  | .notANumber => "nan"
  | .infinity .positive => "inf"
  | .infinity .negative => "-inf"
  | .zero .positive => "0.0"
  | .zero .negative => "-0.0"
  | .finite .positive m e _ => String.ofList (l.text (shortest x.abs m e))
  | .finite .negative m e _ => String.ofList ('-' :: l.text (shortest x.abs m e))

end Decimal

end NodeScript
