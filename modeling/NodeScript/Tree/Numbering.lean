import NodeScript.Tree.Basic

/-!
# Numbering the functions of a tree

Before a tree is run, each of its functions gets a number that no other function has. The numbers follow the order of the
text, from a given first one on; each traversal gives the numbered tree and the next free number.
-/

namespace NodeScript

/-- What tells functions apart. -/
abbrev FuncId := Nat

mutual

/-- Numbers the functions of an expression. -/
def Expr.number (next : FuncId) : Expr Unit → Expr FuncId × FuncId
  | .literal s value => (.literal s value, next)
  | .convert s goal value =>
    let (value, next) := value.number next
    (.convert s goal value, next)
  | .binary s op left right =>
    let (left, next) := left.number next
    let (right, next) := right.number next
    (.binary s op left right, next)
  | .not s value =>
    let (value, next) := value.number next
    (.not s value, next)
  | .len s target =>
    let (target, next) := target.number next
    (.len s target, next)
  | .typeOf s value =>
    let (value, next) := value.number next
    (.typeOf s value, next)
  | .getVar s name => (.getVar s name, next)
  | .list s items =>
    let (items, next) := Expr.numberAll next items
    (.list s items, next)
  | .range s start stop =>
    let (start, next) := start.number next
    let (stop, next) := stop.number next
    (.range s start stop, next)
  | .subscript s target index =>
    let (target, next) := target.number next
    let (index, next) := index.number next
    (.subscript s target index, next)
  | .join s target separator =>
    let (target, next) := target.number next
    let (separator, next) := separator.number next
    (.join s target separator, next)
  | .input s prompt =>
    let (prompt, next) := Expr.numberOption next prompt
    (.input s prompt, next)
  | .func s _ params code =>
    let (code, after) := Stmt.numberAll (next + 1) code
    (.func s next params code, after)
  | .call s target args kwargs =>
    let (target, next) := target.number next
    let (args, next) := Expr.numberAll next args
    let (kwargs, next) := Expr.numberNamed next kwargs
    (.call s target args kwargs, next)

/-- Numbers the functions of some expressions. -/
def Expr.numberAll (next : FuncId) : List (Expr Unit) → List (Expr FuncId) × FuncId
  | [] => ([], next)
  | e :: rest =>
    let (e, next) := e.number next
    let (rest, next) := Expr.numberAll next rest
    (e :: rest, next)

/-- Numbers the functions of named expressions. -/
def Expr.numberNamed (next : FuncId) : List (String × Expr Unit) → List (String × Expr FuncId) × FuncId
  | [] => ([], next)
  | (name, e) :: rest =>
    let (e, next) := e.number next
    let (rest, next) := Expr.numberNamed next rest
    ((name, e) :: rest, next)

/-- Numbers the functions of an expression that may be missing. -/
def Expr.numberOption (next : FuncId) : Option (Expr Unit) → Option (Expr FuncId) × FuncId
  | none => (none, next)
  | some e =>
    let (e, next) := e.number next
    (some e, next)

/-- Numbers the functions of an instruction. -/
def Stmt.number (next : FuncId) : Stmt Unit → Stmt FuncId × FuncId
  | .setVar s name value =>
    let (value, next) := value.number next
    (.setVar s name value, next)
  | .compound s op target value =>
    let (target, next) := target.number next
    let (value, next) := value.number next
    (.compound s op target value, next)
  | .append s target value =>
    let (target, next) := target.number next
    let (value, next) := value.number next
    (.append s target value, next)
  | .insert s target index value =>
    let (target, next) := target.number next
    let (index, next) := index.number next
    let (value, next) := value.number next
    (.insert s target index value, next)
  | .remove s target index =>
    let (target, next) := target.number next
    let (index, next) := index.number next
    (.remove s target index, next)
  | .print s value =>
    let (value, next) := value.number next
    (.print s value, next)
  | .cond s test code otherwise =>
    let (test, next) := test.number next
    let (code, next) := Stmt.numberAll next code
    let (otherwise, next) := Stmt.numberOption next otherwise
    (.cond s test code otherwise, next)
  | .switch s cases default =>
    let (cases, next) := Stmt.numberCases next cases
    let (default, next) := Stmt.numberOption next default
    (.switch s cases default, next)
  | .loop s var list code =>
    let (list, next) := list.number next
    let (code, next) := Stmt.numberAll next code
    (.loop s var list code, next)
  | .ret s value =>
    let (value, next) := Expr.numberOption next value
    (.ret s value, next)
  | .expr s value =>
    let (value, next) := value.number next
    (.expr s value, next)

/-- Numbers the functions of some instructions. -/
def Stmt.numberAll (next : FuncId) : List (Stmt Unit) → List (Stmt FuncId) × FuncId
  | [] => ([], next)
  | stmt :: rest =>
    let (stmt, next) := stmt.number next
    let (rest, next) := Stmt.numberAll next rest
    (stmt :: rest, next)

/-- Numbers the functions of the cases of a switch. -/
def Stmt.numberCases (next : FuncId) :
    List (Expr Unit × List (Stmt Unit)) → List (Expr FuncId × List (Stmt FuncId)) × FuncId
  | [] => ([], next)
  | (test, code) :: rest =>
    let (test, next) := test.number next
    let (code, next) := Stmt.numberAll next code
    let (rest, next) := Stmt.numberCases next rest
    ((test, code) :: rest, next)

/-- Numbers the functions of a block that may be missing. -/
def Stmt.numberOption (next : FuncId) : Option (List (Stmt Unit)) → Option (List (Stmt FuncId)) × FuncId
  | none => (none, next)
  | some code =>
    let (code, next) := Stmt.numberAll next code
    (some code, next)

end

/-- Numbers the functions of a program from `first` on. -/
def Program.number (program : Program) (first : FuncId) : Block FuncId × FuncId :=
  Stmt.numberAll first program

end NodeScript
