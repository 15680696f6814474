import NodeScript.Load.Record
import NodeScript.Tree.Basic

/-!
# The dump of a tree

A tree as a document: each node is an object with its form and, if it has one, its position.
-/

namespace NodeScript

namespace Dump

/-- An object with one member, which names the form of a node. -/
def form (name : String) (value : Json) : Json :=
  .object [(name, value)]

/-- A node: its form, and its position if there is one. -/
def node (span? : Option Span) (kind : Json) : Json :=
  match span? with
  | none => .object [("kind", kind)]
  | some s => .object [("kind", kind), ("span", s.toJson)]

/-- The name of a binary operator in a dump. -/
def operator : BinOp → String
  | .notEqual => "not_equal"
  | op => op.tag

/-- A literal under the name of its type. There is no number for a float that is not finite. -/
def literal : Literal → Json
  | .int n => form "int" (.int n.toInt)
  | .float x => form "float" (if x.isFinite then .float x else .null)
  | .bool b => form "bool" (.bool b)
  | .string s => form "string" (.string s)

/-- The instructions of a block under their name. -/
def block (stmts : List Json) : Json :=
  .object [("stmts", .array stmts)]

end Dump

variable {φ : Type}

mutual

/-- The dump of an expression. -/
def Expr.dump : Expr φ → Json
  | .literal s value => Dump.node s (Dump.form "literal" (Dump.literal value))
  | .convert s goal value =>
    Dump.node s (Dump.form "convert" (.object [("to", .string goal.tag), ("value", value.dump)]))
  | .binary s op left right =>
    Dump.node s (Dump.form "binary"
      (.object [("op", .string (Dump.operator op)), ("left", left.dump), ("right", right.dump)]))
  | .not s value => Dump.node s (Dump.form "not" value.dump)
  | .len s target => Dump.node s (Dump.form "len" target.dump)
  | .typeOf s value => Dump.node s (Dump.form "type_of" value.dump)
  | .getVar s name => Dump.node s (Dump.form "get_var" (.string name))
  | .list s items => Dump.node s (Dump.form "list" (.array (Expr.dumpAll items)))
  | .range s start stop => Dump.node s (Dump.form "range" (.object [("start", start.dump), ("end", stop.dump)]))
  | .subscript s target index =>
    Dump.node s (Dump.form "subscript" (.object [("target", target.dump), ("index", index.dump)]))
  | .join s target separator =>
    Dump.node s (Dump.form "join" (.object [("target", target.dump), ("separator", separator.dump)]))
  | .input s prompt => Dump.node s (Dump.form "input" (Expr.dumpOption prompt))
  | .func s _ params code =>
    Dump.node s (Dump.form "func"
      (.object [("params", .array (params.map .string)), ("code", Dump.block (Stmt.dumpAll code))]))
  | .call s target args kwargs =>
    Dump.node s (Dump.form "call"
      (.object [("target", target.dump), ("args", .array (Expr.dumpAll args)), ("kwargs", .array (Expr.dumpNamed kwargs))]))

/-- The dumps of some expressions. -/
def Expr.dumpAll : List (Expr φ) → List Json
  | [] => []
  | e :: rest => e.dump :: Expr.dumpAll rest

/-- The dumps of named expressions, each as a pair. -/
def Expr.dumpNamed : List (String × Expr φ) → List Json
  | [] => []
  | (name, e) :: rest => .array [.string name, e.dump] :: Expr.dumpNamed rest

/-- The dump of an expression that may be missing. -/
def Expr.dumpOption : Option (Expr φ) → Json
  | none => .null
  | some e => e.dump

/-- The dump of an instruction. -/
def Stmt.dump : Stmt φ → Json
  | .setVar s name value => Dump.node s (Dump.form "set_var" (.object [("name", .string name), ("value", value.dump)]))
  | .compound s op target value =>
    Dump.node s (Dump.form "compound_set"
      (.object [("op", .string op.tag), ("target", target.dump), ("value", value.dump)]))
  | .append s target value =>
    Dump.node s (Dump.form "append" (.object [("target", target.dump), ("value", value.dump)]))
  | .insert s target index value =>
    Dump.node s (Dump.form "insert" (.object [("target", target.dump), ("index", index.dump), ("value", value.dump)]))
  | .remove s target index =>
    Dump.node s (Dump.form "remove" (.object [("target", target.dump), ("index", index.dump)]))
  | .print s value => Dump.node s (Dump.form "print" value.dump)
  | .cond s test code otherwise =>
    Dump.node s (Dump.form "if"
      (.object [("cond", test.dump), ("code", Dump.block (Stmt.dumpAll code)), ("else_block", Stmt.dumpOption otherwise)]))
  | .switch s cases default =>
    Dump.node s (Dump.form "switch"
      (.object [("cases", .array (Stmt.dumpCases cases)), ("default", Stmt.dumpOption default)]))
  | .loop s var list code =>
    Dump.node s (Dump.form "loop"
      (.object [("var", .string var), ("list", list.dump), ("code", Dump.block (Stmt.dumpAll code))]))
  | .ret s value => Dump.node s (Dump.form "return" (Expr.dumpOption value))
  | .expr s value => Dump.node s (Dump.form "expr" value.dump)

/-- The dumps of some instructions. -/
def Stmt.dumpAll : List (Stmt φ) → List Json
  | [] => []
  | stmt :: rest => stmt.dump :: Stmt.dumpAll rest

/-- The dumps of the cases of a switch. -/
def Stmt.dumpCases : List (Expr φ × List (Stmt φ)) → List Json
  | [] => []
  | (test, code) :: rest =>
    .object [("cond", test.dump), ("code", Dump.block (Stmt.dumpAll code))] :: Stmt.dumpCases rest

/-- The dump of a block that may be missing. -/
def Stmt.dumpOption : Option (List (Stmt φ)) → Json
  | none => .null
  | some code => Dump.block (Stmt.dumpAll code)

end

/-- The dump of a program. -/
def Program.dump (program : Program) : Json :=
  .object [("body", Dump.block (Stmt.dumpAll program))]

end NodeScript
