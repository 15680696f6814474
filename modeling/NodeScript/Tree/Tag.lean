import NodeScript.Tree.Basic

/-!
# Tags

The `type` of a node in a document. An expression may stand where an instruction is expected, so the tags of instructions
and those of expressions are two tables without a common entry.
-/

namespace NodeScript

/-- The tags of expressions. -/
inductive ExprTag where
  | convert (goal : Conversion)
  | binary (op : BinOp)
  | not | len | typeOf | getVar | list | range | subscript | join | input | func | call
  deriving DecidableEq, Repr

/-- The tags of instructions. -/
inductive StmtTag where
  | setVar
  | compound (op : ArithOp)
  | append | insert | remove | print | cond | switch | loop | ret
  deriving DecidableEq, Repr

namespace ExprTag

/-- Every tag of an expression, in the order in which they are listed. -/
def all : List ExprTag :=
  Conversion.all.map convert ++ BinOp.all.map binary ++
    [not, len, typeOf, getVar, list, range, subscript, join, input, func, call]

/-- The text of a tag. -/
def text : ExprTag → String
  | convert goal => goal.tag
  | binary op => op.tag
  | not => "not"
  | len => "len"
  | typeOf => "typeof"
  | getVar => "getvar"
  | list => "list"
  | range => "range"
  | subscript => "subscript"
  | join => "join"
  | input => "input"
  | func => "func"
  | call => "call"

/-- The tag with that text. -/
def ofText? (s : String) : Option ExprTag :=
  all.find? fun t => t.text == s

end ExprTag

namespace StmtTag

/-- Every tag of an instruction, in the order in which they are listed. -/
def all : List StmtTag :=
  [setVar] ++ ArithOp.all.map compound ++ [append, insert, remove, print, cond, switch, loop, ret]

/-- The text of a tag. -/
def text : StmtTag → String
  | setVar => "setvar"
  | compound op => op.compoundTag
  | append => "append"
  | insert => "insert"
  | remove => "remove"
  | print => "print"
  | cond => "if"
  | switch => "switch"
  | loop => "loop"
  | ret => "return"

/-- The tag with that text. -/
def ofText? (s : String) : Option StmtTag :=
  all.find? fun t => t.text == s

end StmtTag

/-- The name of a literal's type. -/
def Literal.typeName : Literal → String
  | int _ => "int"
  | float _ => "float"
  | bool _ => "bool"
  | string _ => "string"

/-- The text of an expression's tag. A literal has the tag of its type. -/
def Expr.tag {φ : Type} : Expr φ → String
  | literal _ value => value.typeName
  | convert _ goal _ => goal.tag
  | binary _ op _ _ => op.tag
  | not _ _ => "not"
  | len _ _ => "len"
  | typeOf _ _ => "typeof"
  | getVar _ _ => "getvar"
  | list _ _ => "list"
  | range _ _ _ => "range"
  | subscript _ _ _ => "subscript"
  | join _ _ _ => "join"
  | input _ _ => "input"
  | func _ _ _ _ => "func"
  | call _ _ _ _ => "call"

/-- The text of an instruction's tag. An expression has its own tag. -/
def Stmt.tag {φ : Type} : Stmt φ → String
  | setVar _ _ _ => "setvar"
  | compound _ op _ _ => op.compoundTag
  | append _ _ _ => "append"
  | insert _ _ _ _ => "insert"
  | remove _ _ _ => "remove"
  | print _ _ => "print"
  | cond _ _ _ _ => "if"
  | switch _ _ _ => "switch"
  | loop _ _ _ _ => "loop"
  | ret _ _ => "return"
  | expr _ value => value.tag

end NodeScript
