import NodeScript.Decimal.Reader
import NodeScript.Json.Basic

/-!
# JSON as it is written

The grammar of a document before its meaning: a number keeps its digits, an object keeps repeated members, and a string
may hold an escape that stands for no character. `Written.document?` gives the meaning, where it has one: numbers have to
be finite, strings have to be text, containers may be nested only so deep, and a repeated member has the place of its first
occurrence and the value of its last.

A number that is no integer is read in steps that round one after the other: as many digits as 64 bits hold, and then a product
with a power of ten or quotients by powers of ten. So it need not be the binary64 number nearest to what is written.
-/

namespace NodeScript

/-- A number as it is written. -/
structure WrittenNumber where
  negative : Bool
  /-- The digits before the point. -/
  digits : List Char
  /-- The digits behind the point, if there is one. -/
  fraction : Option (List Char)
  /-- The power of ten, if there is one. -/
  power : Option Int

/-- The grammar of a JSON document. A string is `none` when one of its escapes stands for half a character. -/
inductive Written where
  | null
  | bool (b : Bool)
  | number (n : WrittenNumber)
  | string (text : Option String)
  | array (items : List Written)
  | object (members : List (Option String × Written))
  deriving Inhabited

namespace WrittenNumber

/-- The integer that the digits before the point stand for. -/
def integer (n : WrittenNumber) : Int :=
  if n.negative then -(Decimal.digitsValue n.digits : Int) else Decimal.digitsValue n.digits

/-- Whether the number is an integer: it is written as one, is not a negative zero and fits into 64 bits with or without a
sign. -/
def isInteger (n : WrittenNumber) : Bool :=
  n.fraction.isNone && n.power.isNone && !(n.negative && n.integer == 0) && decide (Int64.minValue.toInt ≤ n.integer) &&
    decide (n.integer < UInt64.size)

/-- A significand with digits added to it up to the first that does not fit into 64 bits, and how many were added. -/
def addDigits (significand : Nat) : List Char → Nat × Nat
  | [] => (significand, 0)
  | c :: rest =>
    let next := 10 * significand + (c.toNat - '0'.toNat)
    if next < UInt64.size then
      let (all, added) := addDigits next rest
      (all, added + 1)
    else (significand, 0)

/-- The part of a number that is kept. Of the digits before the point that do not fit only the number counts, and of those
behind it nothing; where digits before the point were left out, some behind it may still fit. -/
def kept (n : WrittenNumber) : Decimal :=
  let (whole, before) := addDigits 0 n.digits
  let (significand, behind) := addDigits whole (n.fraction.getD [])
  ⟨significand, (n.digits.length - before : Nat) - behind + n.power.getD 0⟩

/-- A number that is not negative times a power of ten. A power that is too large a number itself is infinite, and one below
`10 ^ (-308)` is divided by in steps. -/
def scaled (x : Float) (power : Int) : Float :=
  if x == 0.0 then x
  else if 0 ≤ power then x * Decimal.toFloat ⟨1, power⟩
  else if -308 ≤ power then x / Decimal.toFloat ⟨1, -power⟩
  else scaled (x / Decimal.toFloat ⟨1, 308⟩) (power + 308)
  termination_by (-power).toNat

/-- The number with its digits cut and its power of ten multiplied, without the sign; infinite when it is too large. -/
def magnitude (n : WrittenNumber) : Float :=
  scaled (Decimal.toFloat ⟨n.kept.coefficient, 0⟩) n.kept.exponent

/-- The value of a number: an integer, or else a binary64 number, if that is finite. -/
def document? (n : WrittenNumber) : Option Json :=
  if n.isInteger then some (.int n.integer)
  else if n.magnitude.isFinite then some (.float (if n.negative then -n.magnitude else n.magnitude))
  else none

end WrittenNumber

namespace Json

/-- Sets a member: in its place when the name is there already, else at the end. -/
def setMember (members : List (String × Json)) (name : String) (value : Json) : List (String × Json) :=
  if members.any (·.1 == name) then members.map fun (n, v) => if n == name then (n, value) else (n, v)
  else members ++ [(name, value)]

end Json

namespace Written

mutual

/-- The document that is written, with at most `room` containers open at once. -/
def document? (room : Nat) : Written → Option Json
  | null => some .null
  | bool b => some (.bool b)
  | number n => n.document?
  | string text => text.map .string
  | array items => match room with
    | 0 => none
    | room + 1 => (documents? room items).map .array
  | object members => match room with
    | 0 => none
    | room + 1 => (members? room [] members).map .object

/-- The documents of the items of an array. -/
def documents? (room : Nat) : List Written → Option (List Json)
  | [] => some []
  | item :: rest => do
    let item ← item.document? room
    let rest ← documents? room rest
    return item :: rest

/-- The members of an object, added to those before them. -/
def members? (room : Nat) (before : List (String × Json)) : List (Option String × Written) → Option (List (String × Json))
  | [] => some before
  | (name, value) :: rest => do
    let name ← name
    let value ← value.document? room
    members? room (Json.setMember before name value) rest

end

end Written

end NodeScript
