import NodeScript.Json.Basic
import NodeScript.Tree.Tag

/-!
# The schema of program documents

Which documents are programs, said without a loader. A part of a document stands in a role: it is an expression, an instruction,
a block of them, a name and so on. A node is an object with a tag, and the tag says which fields the node has, in which roles
(`ExprTag.fields`, `StmtTag.fields`). `Conforms role doc` says that a document fits a role; a program is a document that fits the
role of a block. Fields that the schema does not name may hold anything.
-/

namespace NodeScript

/-- What a part of a document stands for. -/
inductive Role where
  | expr
  | stmt
  | block
  /-- A name or a tag. -/
  | text
  /-- The parameters of a function. -/
  | params
  /-- The entries of a list or the arguments of a call. -/
  | exprs
  /-- The arguments of a call that are given by name. -/
  | named
  | case
  | cases
  /-- A line or a column. -/
  | coordinate
  deriving DecidableEq, Repr

/-- A field of a node: its name, its role, and whether it has to be there. -/
structure FieldRule where
  name : String
  role : Role
  required : Bool
  deriving DecidableEq, Repr

namespace FieldRule

/-- A field that has to be there. -/
def must (name : String) (role : Role) : FieldRule := ⟨name, role, true⟩

/-- A field that may be missing. -/
def may (name : String) (role : Role) : FieldRule := ⟨name, role, false⟩

/-- The fields of a case of a switch. -/
def case : List FieldRule := [must "cond" .expr, must "code" .block]

end FieldRule

open FieldRule in
/-- The fields of an expression node. -/
def ExprTag.fields : ExprTag → List FieldRule
  | .convert _ | .not | .typeOf => [must "value" .expr]
  | .binary _ => [must "value1" .expr, must "value2" .expr]
  | .len => [must "target" .expr]
  | .getVar => [must "name" .text]
  | .list => [may "values" .exprs]
  | .range => [must "start" .expr, must "end" .expr]
  | .subscript => [must "target" .expr, must "index" .expr]
  | .join => [must "target" .expr, must "value" .expr]
  | .input => [may "prompt" .expr]
  | .func => [must "args" .params, must "code" .block]
  | .call => [must "target" .expr, may "args" .exprs, may "kwargs" .named]

open FieldRule in
/-- The fields of an instruction node. -/
def StmtTag.fields : StmtTag → List FieldRule
  | .setVar => [must "name" .text, must "value" .expr]
  | .compound _ | .append => [must "target" .expr, must "value" .expr]
  | .insert => [must "target" .expr, must "index" .expr, must "value" .expr]
  | .remove => [must "target" .expr, must "index" .expr]
  | .print => [must "value" .expr]
  | .cond => [must "cond" .expr, must "code" .block, may "else" .block]
  | .switch => [must "cases" .cases, may "default" .block]
  | .loop => [must "var" .text, must "list" .expr, must "code" .block]
  | .ret => [may "value" .expr]

namespace Json

/-- The string under `type`. -/
def HasTag (members : List (String × Json)) (tag : String) : Prop :=
  member? "type" members = some (.string tag)

/-- The fields of a node: those of its position, which are a line and, if there is one, a column, and those of its own. -/
def fieldsOf (members : List (String × Json)) (own : List FieldRule) : List FieldRule :=
  (if (member? "line" members).isSome then [.must "line" .coordinate, .may "column" .coordinate] else []) ++ own

/-- Every field that has to be there is there. -/
def Complete (members : List (String × Json)) (rules : List FieldRule) : Prop :=
  ∀ rule ∈ rules, rule.required → (member? rule.name members).isSome

end Json

/-- A document fits a role. -/
inductive Conforms : Role → Json → Prop where
  | bool (b : Bool) : Conforms .expr (.bool b)
  | int (n : Int) (low : Int64.minValue.toInt ≤ n) (high : n ≤ Int64.maxValue.toInt) : Conforms .expr (.int n)
  | float (x : Float) : Conforms .expr (.float x)
  | string (s : String) : Conforms .expr (.string s)
  | coordinate (n : Int) (low : 0 ≤ n) (high : n < UInt32.size) : Conforms .coordinate (.int n)
  | text (s : String) : Conforms .text (.string s)
  | expr {members : List (String × Json)} (tag : ExprTag) (hasTag : Json.HasTag members tag.text)
      (complete : Json.Complete members (Json.fieldsOf members tag.fields))
      (fits : ∀ rule ∈ Json.fieldsOf members tag.fields, ∀ value, Json.member? rule.name members = some value →
        Conforms rule.role value) : Conforms .expr (.object members)
  | stmt {members : List (String × Json)} (tag : StmtTag) (hasTag : Json.HasTag members tag.text)
      (complete : Json.Complete members (Json.fieldsOf members tag.fields))
      (fits : ∀ rule ∈ Json.fieldsOf members tag.fields, ∀ value, Json.member? rule.name members = some value →
        Conforms rule.role value) : Conforms .stmt (.object members)
  /-- An expression node may stand where an instruction is expected. -/
  | exprStmt {members : List (String × Json)} (node : Conforms .expr (.object members)) : Conforms .stmt (.object members)
  | case {members : List (String × Json)}
      (complete : Json.Complete members (Json.fieldsOf members FieldRule.case))
      (fits : ∀ rule ∈ Json.fieldsOf members FieldRule.case, ∀ value, Json.member? rule.name members = some value →
        Conforms rule.role value) : Conforms .case (.object members)
  | block {items : List Json} (all : ∀ item ∈ items, Conforms .stmt item) : Conforms .block (.array items)
  | params {items : List Json} (all : ∀ item ∈ items, Conforms .text item) : Conforms .params (.array items)
  | exprs {items : List Json} (all : ∀ item ∈ items, Conforms .expr item) : Conforms .exprs (.array items)
  | cases {items : List Json} (all : ∀ item ∈ items, Conforms .case item) : Conforms .cases (.array items)
  | named {members : List (String × Json)} (all : ∀ m ∈ members, Conforms .expr m.2) : Conforms .named (.object members)

end NodeScript
