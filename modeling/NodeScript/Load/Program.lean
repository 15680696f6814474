import NodeScript.Json.Reader
import NodeScript.Load.Basic
import NodeScript.Tree.Tag

/-!
# Loading programs

A document is an array of instructions, and each node in it is an object with a `type`. Loading goes down the document level
by level: the loader of one level more reads a node, and leaves its fields to the loader below.
-/

namespace NodeScript

/-- What reads expressions and instructions of documents down to some depth. -/
structure NodeLoader where
  expr : Json → Load (Expr Unit)
  stmt : Json → Load (Stmt Unit)

namespace NodeLoader

/-- Below the deepest level nothing can be read. -/
def bottom : NodeLoader where
  expr _ := Load.fail .nestedTooDeep
  stmt _ := Load.fail .nestedTooDeep

/-- The instructions of an array, from an index on. One that cannot be loaded is left out, and a full log ends the array. -/
def stmts (r : NodeLoader) : Nat → List Json → Load (Block Unit)
  | _, [], _, log => (some [], log)
  | i, item :: rest, place, log =>
    if log.isFull then (some [], log)
    else
      let (stmt, log) := Load.within (.index i) (r.stmt item) place log
      let (rest, log) := stmts r (i + 1) rest place log
      (rest.map fun rest => stmt.toList ++ rest, log)

/-- A block is an array of instructions. -/
def block (r : NodeLoader) : Json → Load (Block Unit)
  | .array items => r.stmts 0 items
  | got => Load.fail (.notBlock got)

/-! ## Expressions -/

/-- The parameters of a function. -/
def params : Json → Load (List String)
  | .array items =>
    match items.mapM Json.string? with
    | some names => pure names
    | none => Load.fail .parameterNotString
  | got => Load.fail (.fieldNotArray "args" got)

/-- The expression of a node with a known tag. -/
def exprForm (r : NodeLoader) (members : List (String × Json)) (tag : ExprTag) (span : Option Span) : Load (Expr Unit) :=
  let expr (name : String) := Load.field tag.text name r.expr members
  match tag with
  | .convert goal => Expr.convert span goal <$> expr "value"
  | .binary op => Expr.binary span op <$> expr "value1" <*> expr "value2"
  | .not => Expr.not span <$> expr "value"
  | .len => Expr.len span <$> expr "target"
  | .typeOf => Expr.typeOf span <$> expr "value"
  | .getVar => Expr.getVar span <$> Load.field tag.text "name" (Load.text "name") members
  | .list => Expr.list span <$> Load.arrayField "values" r.expr members
  | .range => Expr.range span <$> expr "start" <*> expr "end"
  | .subscript => Expr.subscript span <$> expr "target" <*> expr "index"
  | .join => Expr.join span <$> expr "target" <*> expr "value"
  | .input => Expr.input span <$> Load.field? "prompt" r.expr members
  | .func =>
    Expr.func span () <$> Load.field tag.text "args" params members <*> Load.field tag.text "code" r.block members
  | .call =>
    (fun target args kwargs => Expr.call span target args (kwargs.getD [])) <$> expr "target" <*>
      Load.arrayField "args" r.expr members <*> Load.field? "kwargs" (Load.object "kwargs" r.expr) members

/-- The members and the tag of a node. -/
def tagged {α : Type} (doc : Json) (x : List (String × Json) → String → Load α) : Load α :=
  match doc with
  | .object members => match Json.member? "type" members with
    | some (.string tag) => x members tag
    | some got => Load.fail (.tagNotString got)
    | none => Load.fail .tagMissing
  | got => Load.fail (.notNode got)

/-- An expression: a scalar that stands for itself, or a node. -/
def nextExpr (r : NodeLoader) : Json → Load (Expr Unit)
  | .bool b => pure (.literal none (.bool b))
  | .string s => pure (.literal none (.string s))
  | .int n =>
    if Int64.minValue.toInt ≤ n ∧ n ≤ Int64.maxValue.toInt then pure (.literal none (.int (Int64.ofInt n)))
    else Load.fail (.integerTooLarge n)
  | .float x => pure (.literal none (.float x))
  | .object members => tagged (.object members) fun members tag =>
    match ExprTag.ofText? tag with
    | some known => Load.node members (r.exprForm members known)
    | none => Load.fail (.unknownExpression tag)
  | got => Load.fail (.notExpression got)

/-! ## Instructions -/

/-- A case of a switch: a condition and what to do under it. -/
def switchCase (r : NodeLoader) : Json → Load (Expr Unit × Block Unit)
  | .object members => Load.node members fun _ =>
    Prod.mk <$> Load.field "case" "cond" r.expr members <*> Load.field "case" "code" r.block members
  | got => Load.fail (.caseNotObject got)

/-- The instruction of a node with a known tag. -/
def stmtForm (r : NodeLoader) (members : List (String × Json)) (tag : StmtTag) (span : Option Span) : Load (Stmt Unit) :=
  let expr (name : String) := Load.field tag.text name r.expr members
  let code (name : String) := Load.field tag.text name r.block members
  let name (name : String) := Load.field tag.text name (Load.text name) members
  match tag with
  | .setVar => Stmt.setVar span <$> name "name" <*> expr "value"
  | .compound op => Stmt.compound span op <$> expr "target" <*> expr "value"
  | .append => Stmt.append span <$> expr "target" <*> expr "value"
  | .insert => Stmt.insert span <$> expr "target" <*> expr "index" <*> expr "value"
  | .remove => Stmt.remove span <$> expr "target" <*> expr "index"
  | .print => Stmt.print span <$> expr "value"
  | .cond => Stmt.cond span <$> expr "cond" <*> code "code" <*> Load.field? "else" r.block members
  | .switch =>
    match Json.member? "cases" members with
    | none => Load.fail (.fieldMissing tag.text "cases")
    | some cases =>
      Stmt.switch span <$> Load.within (.key "cases") (Load.array "cases" r.switchCase cases) <*>
        Load.field? "default" r.block members
  | .loop => Stmt.loop span <$> name "var" <*> expr "list" <*> code "code"
  | .ret => Stmt.ret span <$> Load.field? "value" r.expr members

/-- An instruction: a node with a tag of its own, or an expression, whose value is not used. -/
def nextStmt (r : NodeLoader) (doc : Json) : Load (Stmt Unit) :=
  tagged doc fun members tag =>
    match StmtTag.ofText? tag with
    | some known => Load.node members (r.stmtForm members known)
    | none =>
      if (ExprTag.ofText? tag).isSome then (fun e => .expr e.span e) <$> r.nextExpr doc
      else Load.fail (.unknownInstruction tag)

/-- The loader of one level more. -/
def next (r : NodeLoader) : NodeLoader where
  expr := r.nextExpr
  stmt := r.nextStmt

end NodeLoader

/-- The loader of documents nested less than `n` deep. -/
def nodeLoader : Nat → NodeLoader
  | 0 => .bottom
  | n + 1 => NodeLoader.next ⟨fun doc => (nodeLoader n).expr doc, fun doc => (nodeLoader n).stmt doc⟩

/-- What loading a document gives: its program, unless there was an error, and the log. -/
structure LoadResult where
  program : Option Program
  log : ErrorLog

/-- The program of a result, or the errors if there are any or the program is missing. -/
def LoadResult.toExcept (result : LoadResult) : Except ErrorLog Program :=
  match result.program with
  | some program => if result.log.hasErrors then .error result.log else .ok program
  | none => .error result.log

namespace Program

/-- Loads a document; `capacity` errors are kept. -/
def loadWith (capacity : Option Nat) (doc : Json) : LoadResult :=
  let log := ErrorLog.empty capacity
  match doc with
  | .array items =>
    let (body, log) := (nodeLoader doc.depth).stmts 0 items ⟨[], none⟩ log
    ⟨if log.hasErrors then none else body, log⟩
  | got =>
    let (body, log) := Load.fail (.notProgram got) ⟨[], none⟩ log
    ⟨body, log⟩

/-- The program of a document, or the errors that it has. -/
def ofJson (doc : Json) : Except ErrorLog Program :=
  (loadWith (some ErrorLog.limit) doc).toExcept

/-- The log of a text that is not JSON. -/
def invalidText : ErrorLog :=
  (Load.note .invalidJson ⟨[], none⟩ (ErrorLog.empty (some ErrorLog.limit))).2

/-- The program that a text holds, or the errors that it has. -/
def ofText (source : String) : Except ErrorLog Program :=
  match Json.parse? source with
  | some doc => ofJson doc
  | none => .error invalidText

end Program

end NodeScript
