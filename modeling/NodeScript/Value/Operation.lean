import NodeScript.Value.Equal
import NodeScript.Value.Sequence

/-!
# Operations on values

Binary operators, conversions, truth and subscripts. An operation between two numbers is one on floats when the left one is a
float, whatever the right one is, or when both are numbers and the right one is a float.
-/

namespace NodeScript

namespace Value

/-! ## Conversions -/

/-- The integer that a value converts to. -/
def toInt : Value → Except Fault Value
  | int n => .ok (.int n)
  | float x => (truncate x).map .int
  | bool b => .ok (.int (boolInt b))
  | string s => (intOfText s).map .int
  | v => .error (.mismatch (.conversion .int v.type))

/-- The float that a value converts to. -/
def coerceFloat : Value → Except Fault Float
  | int n => .ok (nearestFloat n)
  | float x => .ok x
  | bool b => .ok (boolFloat b)
  | string s => floatOfText s
  | v => .error (.mismatch (.conversion .float v.type))

/-- Whether a value counts as true: what is not zero, not empty and not false. -/
def truth (h : Heap) : Value → Except Fault Bool
  | int n => .ok (n != 0)
  | float x => .ok (x != 0.0)
  | bool b => .ok b
  | string s => .ok (!s.toList.isEmpty)
  | list l => .ok (!(h.items l).isEmpty)
  | v => .error (.mismatch (.conversion .bool v.type))

/-- The text that a value converts to. -/
def toText (h : Heap) : Value → Except Fault String
  | list l => h.render (.list l)
  | range start stop => h.render (.range start stop)
  | v => v.scalarText

/-- A value converted to a type. -/
def convert (h : Heap) (goal : Conversion) (v : Value) : Except Fault Value :=
  match goal with
  | .int => v.toInt
  | .float => v.coerceFloat.map .float
  | .bool => (v.truth h).map .bool
  | .string => (v.toText h).map .string

/-! ## Operators -/

/-- A truth value that an operator needs. -/
def boolFor (op : Operator) : Value → Except Fault Bool
  | bool b => .ok b
  | v => .error (.mismatch (.needsBool op v.type))

/-- The text of a value that is put behind a string. -/
def suffixText (h : Heap) : Value → Except Fault String
  | list l => h.render (.list l)
  | v => v.scalarText

/-- Arithmetic. -/
def arith (h : Heap) (op : ArithOp) (left right : Value) : Except Fault Value :=
  match left, right with
  | float a, _ => do
    let b ← right.coerceFloat
    (floatArith op a b).map .float
  | int a, float b => (floatArith op (nearestFloat a) b).map .float
  | int a, int b => (intArith op a b).map .int
  | int a, bool b => (intArith op a (boolInt b)).map .int
  | string a, _ =>
    if op = .add then (right.suffixText h).map fun text => .string (a ++ text)
    else .error (.mismatch (.operands op left.type right.type))
  | _, _ => .error (.mismatch (.operands op left.type right.type))

/-- An operator between two truth values; the left one is looked at first. -/
def logic (op : BinOp) (f : Bool → Bool → Bool) (left right : Value) : Except Fault Value := do
  let a ← left.boolFor (.binary op)
  let b ← right.boolFor (.binary op)
  return .bool (f a b)

/-- A binary operator between two values. -/
def binary (h : Heap) (op : BinOp) (left right : Value) : Except Fault Value :=
  match op with
  | .arith op => arith h op left right
  | .equal => .ok (.bool (h.equal left right))
  | .notEqual => .ok (.bool (!h.equal left right))
  | .and => logic .and Bool.and left right
  | .or => logic .or Bool.or left right
  | .xor => logic .xor Bool.xor left right

/-- The opposite of a truth value. -/
def negation (v : Value) : Except Fault Value :=
  (v.boolFor .not).map fun b => .bool (!b)

/-- A part of a sequence. Of a range it is the sum of its start and the index, within its bounds or not. -/
def subscript (h : Heap) (target index : Value) : Except Fault Value :=
  match target with
  | list l => do h.elementAt l (← index.index)
  | range start _ => arith h .add start index
  | string s => do charAt s (← index.index)
  | v => .error (.mismatch (.notSubscriptable v.type))

/-! ## Changing lists -/

/-- Puts a slot into a list before an index. -/
def insert (h : Heap) (target index : Value) (s : SlotId) : Except Fault Heap := do
  let l ← target.listFor .insert
  let i ← index.index
  h.insert l i s

/-- Takes the element at an index out of a list. -/
def remove (h : Heap) (target index : Value) : Except Fault Heap := do
  let l ← target.listFor .remove
  let i ← index.index
  let (_, h) ← h.remove l i
  return h

end Value

end NodeScript
