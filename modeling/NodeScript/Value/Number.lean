import NodeScript.Decimal.Reader
import NodeScript.Text.Blank
import NodeScript.Value.Fault

/-!
# Arithmetic

Integers have 64 bits, and a result that does not fit is a trap; a quotient of integers and a power with a negative exponent
go through binary64 numbers and are cut toward zero. The remainder has the sign of the divisor.
-/

namespace NodeScript

/-! ## Integers and floats -/

/-- The integer in 64 bits, if it fits. -/
def int64? (n : Int) : Option Int64 :=
  if Int64.minValue.toInt ≤ n ∧ n ≤ Int64.maxValue.toInt then some (Int64.ofInt n) else none

/-- The float nearest to an integer. -/
def nearestFloat (n : Int64) : Float :=
  Float.ofInt n.toInt

/-- The float of a truth value: one or zero. -/
def boolFloat (b : Bool) : Float :=
  if b then 1.0 else 0.0

/-- The integer of a truth value: one or zero. -/
def boolInt (b : Bool) : Int64 :=
  if b then 1 else 0

namespace FloatPart

open Float.Model

/-- The number `± mantissa * 2 ^ exponent`. -/
def assemble (sign : UnpackedFloat.Sign) (mantissa : Nat) (exponent : Int) : Float :=
  .ofModel (.pack (.round .binary64 sign mantissa exponent))

/-- The integer part of a finite number: the digits after its point are cut off. -/
def whole? (x : Float) : Option Int :=
  match x.toModel.unpack with
  | .zero _ => some 0
  | .finite sign m e _ => some (sign.apply (m * Nat.pow 2 e.toNat / Nat.pow 2 (-e).toNat : Nat))
  | _ => none

/-- Whether a number is finite and not an integer. -/
def isFractional (x : Float) : Bool :=
  match x.toModel.unpack with
  | .finite _ m e _ => m * Nat.pow 2 e.toNat % Nat.pow 2 (-e).toNat ≠ 0
  | _ => false

/-- What is left of `a` after taking `b` away as often as it fits: exact, with the sign of `a`. -/
def remainder (a b : Float) : Float :=
  match a.toModel.unpack, b.toModel.unpack with
  | .finite sign m e _, .finite _ m' e' _ =>
    let low := min e e'
    let rest := (m * Nat.pow 2 (e - low).toNat) % (m' * Nat.pow 2 (e' - low).toNat)
    if rest = 0 then 0.0 else assemble sign rest low
  | .finite _ _ _ _, .infinity _ => a
  | .zero _, .finite _ _ _ _ => a
  | .zero _, .infinity _ => a
  | _, _ => .ofModel (.pack .notANumber)

end FloatPart

/-- A float cut to an integer of 64 bits. -/
def truncate (x : Float) : Except Fault Int64 :=
  match (FloatPart.whole? x).bind int64? with
  | some n => .ok n
  | none => .error (.trap (.noInteger x))

/-! ## Text -/

/-- The number that the text of an integer stands for: blanks around it are left out. -/
def intOfText (s : String) : Except Fault Int64 :=
  match (Decimal.integer? (Text.trim s.toList)).bind int64? with
  | some n => .ok n
  | none => .error (.mismatch (.intText s))

/-- The number that the text of a float stands for. Blanks around it are left out. Infinity and not-a-number are written in
letters of either case after any signs, of which the first one counts. A number has to be finite. -/
def floatOfText (s : String) : Except Fault Float :=
  let cs := Text.trim s.toList
  let lower := cs.map Char.toLower
  let word := String.ofList (lower.dropWhile fun c => c = '+' || c = '-')
  let negate (x : Float) := if lower.head? = some '-' then -x else x
  if word = "inf" ∨ word = "infinity" then .ok (negate (.ofModel (.pack (.infinity .positive))))
  else if word = "nan" then .ok (negate (.ofModel (.pack .notANumber)))
  else
    match (Decimal.signedFloat? cs).filter Float.isFinite with
    | some x => .ok x
    | none => .error (.mismatch (.floatText s))

/-! ## Operators -/

/-- The product of two integers, if it fits. -/
def product? (a b : Int64) : Option Int64 :=
  int64? (a.toInt * b.toInt)

/-- A factor times a power: the base is squared while the exponent is halved, and goes into the factor where the exponent is odd.
Each product on the way has to fit. -/
def powerTimes? (factor base : Int64) (exponent : Nat) : Option Int64 :=
  if exponent = 0 then some factor
  else if exponent = 1 then product? factor base
  else do
    let factor ← (if exponent % 2 = 1 then product? factor base else some factor)
    let square ← product? base base
    powerTimes? factor square (exponent / 2)
termination_by exponent

/-- The power of an integer, if it fits. An exponent of more than 32 bits leaves only the powers of zero and of the units. -/
def intPower? (base : Int64) (exponent : Nat) : Option Int64 :=
  if exponent < Nat.pow 2 32 then powerTimes? 1 base exponent
  else if base = 0 ∨ base = 1 then some base
  else if base = -1 then some (if exponent % 2 = 0 then 1 else -1)
  else none

/-- The remainder with the sign of the divisor. What a division toward zero leaves has the sign of the dividend, and the divisor is
added to it where the signs differ. -/
def intModulo (a b : Int64) : Int64 :=
  let r := a % b
  if r ≠ 0 ∧ decide (r < 0) ≠ decide (b < 0) then r + b else r

/-- Arithmetic on integers. -/
def intArith (op : ArithOp) (a b : Int64) : Except Fault Int64 :=
  let fits (n : Option Int64) : Except Fault Int64 := match n with
    | some n => .ok n
    | none => .error (.trap (.overflow op))
  match op with
  | .add => fits (int64? (a.toInt + b.toInt))
  | .sub => fits (int64? (a.toInt - b.toInt))
  | .mul => fits (product? a b)
  | .div => if b = 0 then .error (.trap .division) else truncate (nearestFloat a / nearestFloat b)
  | .mod => if b = 0 then .error (.trap .modulo) else .ok (intModulo a b)
  | .pow =>
    if b.toInt < 0 then
      if a = 0 then .error (.trap .zeroPower) else truncate (Float.pow (nearestFloat a) (nearestFloat b))
    else fits (intPower? a b.toInt.toNat)

/-- The remainder with the sign of the divisor, also when it is zero. -/
def floatModulo (a b : Float) : Float :=
  let r := FloatPart.remainder a b
  if r == 0.0 then if b < 0.0 then -0.0 else 0.0
  else if decide (r < 0.0) != decide (b < 0.0) then r + b
  else r

/-- Arithmetic on floats. -/
def floatArith (op : ArithOp) (a b : Float) : Except Fault Float :=
  match op with
  | .add => .ok (a + b)
  | .sub => .ok (a - b)
  | .mul => .ok (a * b)
  | .div => if b == 0.0 then .error (.trap .floatDivision) else .ok (a / b)
  | .mod => if b == 0.0 then .error (.trap .floatModulo) else .ok (floatModulo a b)
  | .pow =>
    if a == 0.0 && decide (b < 0.0) then .error (.trap .zeroPower)
    else if decide (a < 0.0) && FloatPart.isFractional b then .error (.trap .fractionalPower)
    else
      let r := Float.pow a b
      if r.isInf && a.isFinite && b.isFinite then .error (.trap .floatPower) else .ok r

end NodeScript
