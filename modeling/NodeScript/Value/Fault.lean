import NodeScript.Decimal.Layout
import NodeScript.Load.Error
import NodeScript.Text.Quoted
import NodeScript.Value.Basic

/-!
# Faults

What can go wrong while a program runs, and the message for it. A failure is a fault and the position of the innermost node
that has one.
-/

namespace NodeScript

/-- The text of a float: positional from `0.0001` to below `10 ^ 16`, else with a signed exponent of two digits at least. -/
def floatLayout : Decimal.Layout := ⟨-4, 16, true, 2⟩

/-- Operators that are named in messages. -/
inductive Operator where
  | binary (op : BinOp)
  | not | append | insert | remove
  deriving DecidableEq, Repr

/-- The name of an operator. -/
def Operator.name : Operator → String
  | binary op => op.tag
  | not => "not"
  | append => "append"
  | insert => "insert"
  | remove => "remove"

/-- A value of a type, or with a text, that does not do. -/
inductive Mismatch where
  | index (got : ValueType)
  | rangeBounds (start stop : ValueType)
  | separator (got : ValueType)
  | needsBool (op : Operator) (got : ValueType)
  | needsList (op : Operator) (got : ValueType)
  | operands (op : ArithOp) (left right : ValueType)
  | noLength (got : ValueType)
  | notSubscriptable (got : ValueType)
  | notIterable (got : ValueType)
  | notCallable (got : ValueType)
  | noScalar (got : ValueType)
  | conversion (goal : Conversion) (got : ValueType)
  | intText (text : String)
  | floatText (text : String)
  deriving DecidableEq, Repr

namespace Mismatch

/-- The message of a mismatch. -/
def message : Mismatch → String
  | index got => "index must be an int, got " ++ got.name
  | rangeBounds start stop => "range bounds must be integers, got " ++ start.name ++ " and " ++ stop.name
  | separator got => "join separator must be a string, got " ++ got.name
  | needsBool op got => "'" ++ op.name ++ "' requires bool, got " ++ got.name
  | needsList op got => "'" ++ op.name ++ "' requires list, got " ++ got.name
  | operands op left right => "cannot apply '" ++ op.tag ++ "' to " ++ left.name ++ " and " ++ right.name
  | noLength got => got.name ++ " has no length"
  | notSubscriptable got => got.name ++ " is not subscriptable"
  | notIterable got => got.name ++ " is not iterable"
  | notCallable got => got.name ++ " is not callable"
  | noScalar got => got.name ++ " has no scalar value"
  | conversion goal got => "cannot convert " ++ got.name ++ " to " ++ goal.tag
  | intText text => "invalid literal for int: " ++ Text.quoted text
  | floatText text => "invalid literal for float: " ++ Text.quoted text

end Mismatch

/-- A calculation without a result. -/
inductive Trap where
  | overflow (op : ArithOp)
  | division
  | modulo
  | floatDivision
  | floatModulo
  | zeroPower
  | fractionalPower
  | floatPower
  | noInteger (x : Float)
  deriving DecidableEq

namespace Trap

/-- The message of a trap. -/
def message : Trap → String
  | overflow op => "integer overflow in '" ++ op.tag ++ "'"
  | division => "division by zero"
  | modulo => "modulo by zero"
  | floatDivision => "float division by zero"
  | floatModulo => "float modulo by zero"
  | zeroPower => "zero cannot be raised to a negative power"
  | fractionalPower => "negative number cannot be raised to a fractional power"
  | floatPower => "float overflow in 'pow'"
  | noInteger x => "cannot convert " ++ floatLayout.floatText x ++ " to int"

end Trap

/-- What a compound assignment cannot assign to. -/
inductive Unassignable where
  | element (container : ValueType)
  | expression (tag : String)
  deriving DecidableEq, Repr

/-- The message for what cannot be assigned to. -/
def Unassignable.message : Unassignable → String
  | element container => "element of " ++ container.name
  | expression tag => "'" ++ tag ++ "' expression"

/-- What went wrong. -/
inductive Fault where
  | unknownExpression (message : String)
  | unknownInstruction (message : String)
  | malformedNode (message : String)
  | variableNotFound (name : String)
  | mismatch (m : Mismatch)
  | indexOutOfRange (index : Int64) (length : Nat)
  | argumentCount (expected : Nat) (given : List String)
  | unknownParameter (name : String)
  | trap (t : Trap)
  | notAssignable (u : Unassignable)
  | returnOutsideFunction
  | callDepth (limit : Nat)
  | stream (message : String)
  deriving DecidableEq

namespace Fault

/-- The message of a fault. -/
def message : Fault → String
  | unknownExpression text => text
  | unknownInstruction text => text
  | malformedNode text => "malformed node: " ++ text
  | variableNotFound name => "variable not found: " ++ name
  | mismatch m => "type mismatch: " ++ m.message
  | indexOutOfRange index length => "index " ++ toString index ++ " out of range for length " ++ toString length
  | argumentCount expected given =>
    "expected " ++ toString expected ++ " positional argument(s), got " ++ toString given.length ++ ": [" ++
      String.intercalate "," given ++ "]"
  | unknownParameter name => "unknown parameter: " ++ name
  | trap t => "arithmetic trap: " ++ t.message
  | notAssignable u => "cannot assign to " ++ u.message
  | returnOutsideFunction => "return outside of a function"
  | callDepth limit => "call depth limit of " ++ toString limit ++ " exceeded"
  | stream text => "i/o error: " ++ text

end Fault

/-- A fault with the position of the innermost node that has one. -/
structure Failure where
  fault : Fault
  span : Option Span
  deriving DecidableEq

namespace Failure

/-- The failure as it leaves a node: the position of the node counts if there is none yet. -/
def located (e : Failure) (span : Option Span) : Failure :=
  { e with span := e.span.or span }

/-- The message of a failure, after its position. -/
def message (e : Failure) : String :=
  match e.span with
  | some s => s.text ++ ": " ++ e.fault.message
  | none => e.fault.message

/-- The failure of a run whose document has an error. Without a position the path is part of the message. -/
def ofLoadError (e : LoadError) : Failure :=
  let text := if e.span.isSome then e.message else e.path ++ ": " ++ e.message
  let fault :=
    if e.code = .unknownExpression then .unknownExpression text
    else if e.code = .unknownInstruction then .unknownInstruction text
    else .malformedNode text
  ⟨fault, e.span⟩

end Failure

end NodeScript
