/-!
# Operators and conversions

The words of the language that stand between values, each with the tag that names it in a document.
-/

namespace NodeScript

/-- The operators of arithmetic, which compound assignment may use too. -/
inductive ArithOp where
  | add | sub | mul | div | mod | pow
  deriving DecidableEq, Repr

/-- The binary operators. -/
inductive BinOp where
  | arith (op : ArithOp)
  | equal | notEqual | and | or | xor
  deriving DecidableEq, Repr

/-- The types a value can be converted to. -/
inductive Conversion where
  | int | float | bool | string
  deriving DecidableEq, Repr

namespace ArithOp

/-- Every operator of arithmetic. -/
def all : List ArithOp := [add, sub, mul, div, mod, pow]

/-- The tag of an operator. -/
def tag : ArithOp → String
  | add => "add"
  | sub => "sub"
  | mul => "mul"
  | div => "div"
  | mod => "mod"
  | pow => "pow"

/-- The tag of the compound assignment with an operator. -/
def compoundTag : ArithOp → String
  | add => "addset"
  | sub => "subset"
  | mul => "mulset"
  | div => "divset"
  | mod => "modset"
  | pow => "powset"

end ArithOp

namespace BinOp

/-- Every binary operator. -/
def all : List BinOp := ArithOp.all.map arith ++ [equal, notEqual, and, or, xor]

/-- The tag of an operator. -/
def tag : BinOp → String
  | arith op => op.tag
  | equal => "equal"
  | notEqual => "notequal"
  | and => "and"
  | or => "or"
  | xor => "xor"

/-- The operator of a tag. -/
def ofTag? : String → Option BinOp
  | "add" => some (.arith .add)
  | "sub" => some (.arith .sub)
  | "mul" => some (.arith .mul)
  | "div" => some (.arith .div)
  | "mod" => some (.arith .mod)
  | "pow" => some (.arith .pow)
  | "equal" => some .equal
  | "notequal" => some .notEqual
  | "and" => some .and
  | "or" => some .or
  | "xor" => some .xor
  | _ => none

/-- The operator as one of arithmetic, if it is one. -/
def arith? : BinOp → Option ArithOp
  | arith op => some op
  | _ => none

end BinOp

/-- The operator of a compound assignment's tag: the one whose tag stands in front of `set`, if it is one of arithmetic. -/
def ArithOp.ofCompoundTag? (tag : String) : Option ArithOp := do
  let stem ← "set".toList.isSuffixOf? tag.toList
  let op ← BinOp.ofTag? (String.ofList stem)
  op.arith?

namespace Conversion

/-- Every conversion. -/
def all : List Conversion := [int, float, bool, string]

/-- The tag of a conversion, which is the name of the type it leads to. -/
def tag : Conversion → String
  | int => "int"
  | float => "float"
  | bool => "bool"
  | string => "string"

/-- The conversion of a tag. -/
def ofTag? : String → Option Conversion
  | "int" => some .int
  | "float" => some .float
  | "bool" => some .bool
  | "string" => some .string
  | _ => none

end Conversion

end NodeScript
