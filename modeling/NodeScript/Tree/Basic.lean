import NodeScript.Tree.Operator
import NodeScript.Tree.Span

/-!
# Program trees

Expressions and instructions, each node with its position if it has one. A function carries a label: a loaded tree has
none (`Unit`), and a tree that is run has a number for each function, since two function values are the same exactly when
they come from the same node.
-/

namespace NodeScript

/-- A scalar that stands in a document as itself. -/
inductive Literal where
  | int (n : Int64)
  | float (x : Float)
  | bool (b : Bool)
  | string (s : String)
  deriving DecidableEq

mutual

/-- An expression whose functions are labelled by `φ`. -/
inductive Expr (φ : Type) where
  | literal (span : Option Span) (value : Literal)
  | convert (span : Option Span) (goal : Conversion) (value : Expr φ)
  | binary (span : Option Span) (op : BinOp) (left right : Expr φ)
  | not (span : Option Span) (value : Expr φ)
  | len (span : Option Span) (target : Expr φ)
  | typeOf (span : Option Span) (value : Expr φ)
  | getVar (span : Option Span) (name : String)
  | list (span : Option Span) (items : List (Expr φ))
  | range (span : Option Span) (start stop : Expr φ)
  | subscript (span : Option Span) (target index : Expr φ)
  | join (span : Option Span) (target separator : Expr φ)
  | input (span : Option Span) (prompt : Option (Expr φ))
  | func (span : Option Span) (label : φ) (params : List String) (code : List (Stmt φ))
  | call (span : Option Span) (target : Expr φ) (args : List (Expr φ)) (kwargs : List (String × Expr φ))

/-- An instruction whose functions are labelled by `φ`. -/
inductive Stmt (φ : Type) where
  | setVar (span : Option Span) (name : String) (value : Expr φ)
  | compound (span : Option Span) (op : ArithOp) (target value : Expr φ)
  | append (span : Option Span) (target value : Expr φ)
  | insert (span : Option Span) (target index value : Expr φ)
  | remove (span : Option Span) (target index : Expr φ)
  | print (span : Option Span) (value : Expr φ)
  | cond (span : Option Span) (test : Expr φ) (code : List (Stmt φ)) (otherwise : Option (List (Stmt φ)))
  | switch (span : Option Span) (cases : List (Expr φ × List (Stmt φ))) (default : Option (List (Stmt φ)))
  | loop (span : Option Span) (var : String) (list : Expr φ) (code : List (Stmt φ))
  | ret (span : Option Span) (value : Option (Expr φ))
  | expr (span : Option Span) (value : Expr φ)

end

/-- Instructions in the order in which they run. -/
abbrev Block (φ : Type) := List (Stmt φ)

/-- A program as it is loaded. -/
abbrev Program := Block Unit

namespace Expr

variable {φ : Type}

/-- The position of an expression. -/
def span : Expr φ → Option Span
  | literal s _ | convert s _ _ | binary s _ _ _ | not s _ | len s _ | typeOf s _ | getVar s _ | list s _ | range s _ _
  | subscript s _ _ | join s _ _ | input s _ | func s _ _ _ | call s _ _ _ => s

end Expr

namespace Stmt

variable {φ : Type}

/-- The position of an instruction. -/
def span : Stmt φ → Option Span
  | setVar s _ _ | compound s _ _ _ | append s _ _ | insert s _ _ _ | remove s _ _ | print s _ | cond s _ _ _
  | switch s _ _ | loop s _ _ _ | ret s _ | expr s _ => s

end Stmt

end NodeScript
