import NodeScript.Proofs.Json.Path
import NodeScript.Proofs.Load.Trail

/-!
# Loading with two stacks

A loader is told its place. The walks of this module keep it themselves, on two stacks: the path to the part they are at, and the
positions of the nodes around it. A walk pushes when it goes into a part and has to pop again on every way out, also where it
stops at the first thing that is wrong. `Walk.Follows` says that a walk leaves both stacks as it found them and otherwise does what
a loader does that is told its place; all walks follow their loaders (`NodeWalker.follows_loader`), so no error has a path or a
position that an earlier one left behind.
-/

namespace NodeScript

/-- Where a walk through a document is: the path, the positions of the nodes around it, the innermost last, and the log. -/
structure Walker where
  path : Path
  spans : List (Option Span)
  log : ErrorLog

/-- The position of the innermost node around that has one. -/
def Walker.span (w : Walker) : Option Span :=
  w.spans.reverse.findSome? id

/-- A step of a walk, or many. -/
abbrev Walk (α : Type) : Type := StateM Walker α

namespace Walk

variable {α β γ δ : Type}

/-! ## The stacks -/

/-- Goes into a part. -/
def push (segment : Segment) : Walk Unit :=
  modify fun w => { w with path := w.path ++ [segment] }

/-- Comes back from it. -/
def pop : Walk Unit :=
  modify fun w => { w with path := w.path.dropLast }

/-- Notes an error where the walk is. -/
def error (cause : LoadCause) : Walk Unit :=
  modify fun w => { w with log := w.log.push ⟨cause.code, cause.message, w.path.text, w.span⟩ }

/-- The column of a node. -/
def column (members : List (String × Json)) : Walk UInt32 :=
  match Json.member? "column" members with
  | none => return 1
  | some value => match value.coordinate? with
    | some c => return c
    | none => do
      error .columnNotNumber
      return 1

/-- The position of a node. -/
def position (members : List (String × Json)) : Walk (Option Span) :=
  match Json.member? "line" members with
  | none => return none
  | some value => match value.coordinate? with
    | some line => do
      let c ← column members
      return some ⟨line, c⟩
    | none => do
      error .lineNotNumber
      return none

/-- Goes into a node: its position is read and put on its stack, whether it has one or not. -/
def enter (members : List (String × Json)) : Walk (Option Span) := do
  let span ← position members
  modify fun w => { w with spans := w.spans ++ [span] }
  return span

/-- Comes back from a node. -/
def leave : Walk Unit :=
  modify fun w => { w with spans := w.spans.dropLast }

/-! ## Fields -/

/-- The members and the tag of a node. -/
def tagged (doc : Json) : Walk (Option (List (String × Json) × String)) :=
  match doc with
  | .object members => match Json.member? "type" members with
    | some (.string tag) => return some (members, tag)
    | some got => do
      error (.tagNotString got)
      return none
    | none => do
      error .tagMissing
      return none
  | got => do
    error (.notNode got)
    return none

/-- The value of a field that has to be there. -/
def value (members : List (String × Json)) (tag name : String) : Walk (Option Json) :=
  match Json.member? name members with
  | none => do
    error (.fieldMissing tag name)
    return none
  | some value => return some value

/-- A field with a string. -/
def textField (members : List (String × Json)) (tag name : String) : Walk (Option String) := do
  match ← value members tag name with
  | none => return none
  | some (.string s) => return some s
  | some got =>
    push (.key name)
    error (.fieldNotString name got)
    pop
    return none

/-- A field that has to be there. -/
def field (load : Json → Walk (Option α)) (members : List (String × Json)) (tag name : String) : Walk (Option α) := do
  match ← value members tag name with
  | none => return none
  | some value =>
    push (.key name)
    let a ← load value
    pop
    return a

/-- A field that may be missing. -/
def field? (load : Json → Walk (Option α)) (members : List (String × Json)) (name : String) : Walk (Option (Option α)) :=
  match Json.member? name members with
  | none => return some none
  | some value => do
    push (.key name)
    let a ← load value
    pop
    return some <$> a

/-- The items of an array, from an index on. -/
def items (load : Json → Walk (Option α)) : Nat → List Json → Walk (Option (List α))
  | _, [] => return some []
  | i, item :: rest => do
    push (.index i)
    let a ← load item
    pop
    let rest ← items load (i + 1) rest
    return List.cons <$> a <*> rest

/-- The values of members under their names. -/
def named (load : Json → Walk (Option α)) : List (String × Json) → Walk (Option (List (String × α)))
  | [] => return some []
  | (name, value) :: rest => do
    push (.key name)
    let a ← load value
    pop
    let rest ← named load rest
    return (fun a rest => (name, a) :: rest) <$> a <*> rest

/-- An array in a field. -/
def array (name : String) (load : Json → Walk (Option α)) : Json → Walk (Option (List α))
  | .array docs => items load 0 docs
  | got => do
    error (.fieldNotArray name got)
    return none

/-- An object of named values in a field. -/
def object (name : String) (load : Json → Walk (Option α)) : Json → Walk (Option (List (String × α)))
  | .object members => named load members
  | got => do
    error (.fieldNotObject name got)
    return none

/-- A field with an array that may be missing. -/
def arrayField (load : Json → Walk (Option α)) (members : List (String × Json)) (name : String) : Walk (Option (List α)) :=
  match Json.member? name members with
  | none => return some []
  | some value => do
    push (.key name)
    let list ← array name load value
    pop
    return list

/-- The parameters of a function. -/
def params : Json → Walk (Option (List String))
  | .array docs => match docs.mapM Json.string? with
    | some names => return some names
    | none => do
      error .parameterNotString
      return none
  | got => do
    error (.fieldNotArray "args" got)
    return none

end Walk

/-! ## Nodes -/

/-- What walks through expressions and instructions of documents down to some depth. -/
structure NodeWalker where
  expr : Json → Walk (Option (Expr Unit))
  stmt : Json → Walk (Option (Stmt Unit))

namespace NodeWalker

open Walk

/-- Below the deepest level nothing can be read. -/
def bottom : NodeWalker where
  expr _ := do
    error .nestedTooDeep
    return none
  stmt _ := do
    error .nestedTooDeep
    return none

/-- The instructions of an array, from an index on, until the log is full. -/
def stmts (r : NodeWalker) : Nat → List Json → Walk (Block Unit)
  | _, [] => return []
  | i, item :: rest => do
    if (← get).log.isFull then return []
    push (.index i)
    let stmt ← r.stmt item
    pop
    let rest ← stmts r (i + 1) rest
    return stmt.toList ++ rest

/-- A block is an array of instructions. -/
def block (r : NodeWalker) : Json → Walk (Option (Block Unit))
  | .array docs => do
    let code ← r.stmts 0 docs
    return some code
  | got => do
    error (.notBlock got)
    return none

/-- The expression of a node with a known tag. All fields are visited before one that is missing counts. -/
def exprForm (r : NodeWalker) (members : List (String × Json)) (tag : ExprTag) (span : Option Span) : Walk (Option (Expr Unit)) :=
  let expr (name : String) := field r.expr members tag.text name
  match tag with
  | .convert goal => do
    let value ← expr "value"
    return Expr.convert span goal <$> value
  | .binary op => do
    let left ← expr "value1"
    let right ← expr "value2"
    return Expr.binary span op <$> left <*> right
  | .not => do
    let value ← expr "value"
    return Expr.not span <$> value
  | .len => do
    let target ← expr "target"
    return Expr.len span <$> target
  | .typeOf => do
    let value ← expr "value"
    return Expr.typeOf span <$> value
  | .getVar => do
    let name ← textField members tag.text "name"
    return Expr.getVar span <$> name
  | .list => do
    let values ← arrayField r.expr members "values"
    return Expr.list span <$> values
  | .range => do
    let first ← expr "start"
    let last ← expr "end"
    return Expr.range span <$> first <*> last
  | .subscript => do
    let target ← expr "target"
    let index ← expr "index"
    return Expr.subscript span <$> target <*> index
  | .join => do
    let target ← expr "target"
    let separator ← expr "value"
    return Expr.join span <$> target <*> separator
  | .input => do
    let prompt ← field? r.expr members "prompt"
    return Expr.input span <$> prompt
  | .func => do
    let names ← field params members tag.text "args"
    let code ← field r.block members tag.text "code"
    return Expr.func span () <$> names <*> code
  | .call => do
    let target ← expr "target"
    let args ← arrayField r.expr members "args"
    let kwargs ← field? (object "kwargs" r.expr) members "kwargs"
    return (fun target args kwargs => Expr.call span target args (kwargs.getD [])) <$> target <*> args <*> kwargs

/-- An expression. A node with a tag that is not known is refused before it is entered. -/
def nextExpr (r : NodeWalker) : Json → Walk (Option (Expr Unit))
  | .bool b => return some (.literal none (.bool b))
  | .string s => return some (.literal none (.string s))
  | .int n =>
    if Int64.minValue.toInt ≤ n ∧ n ≤ Int64.maxValue.toInt then return some (.literal none (.int (Int64.ofInt n)))
    else do
      error (.integerTooLarge n)
      return none
  | .float x => return some (.literal none (.float x))
  | .object members => do
    match ← tagged (.object members) with
    | none => return none
    | some (members, tag) => match ExprTag.ofText? tag with
      | none =>
        error (.unknownExpression tag)
        return none
      | some known =>
        let span ← enter members
        let e ← r.exprForm members known span
        leave
        return e
  | got => do
    error (.notExpression got)
    return none

/-- A case of a switch. -/
def switchCase (r : NodeWalker) : Json → Walk (Option (Expr Unit × Block Unit))
  | .object members => do
    let _ ← enter members
    let cond ← field r.expr members "case" "cond"
    let code ← field r.block members "case" "code"
    leave
    return Prod.mk <$> cond <*> code
  | got => do
    error (.caseNotObject got)
    return none

/-- The instruction of a node with a known tag. A switch without cases is given up before its default is visited. -/
def stmtForm (r : NodeWalker) (members : List (String × Json)) (tag : StmtTag) (span : Option Span) : Walk (Option (Stmt Unit)) :=
  let expr (name : String) := field r.expr members tag.text name
  let code (name : String) := field r.block members tag.text name
  match tag with
  | .setVar => do
    let name ← textField members tag.text "name"
    let value ← expr "value"
    return Stmt.setVar span <$> name <*> value
  | .compound op => do
    let target ← expr "target"
    let value ← expr "value"
    return Stmt.compound span op <$> target <*> value
  | .append => do
    let target ← expr "target"
    let value ← expr "value"
    return Stmt.append span <$> target <*> value
  | .insert => do
    let target ← expr "target"
    let index ← expr "index"
    let value ← expr "value"
    return Stmt.insert span <$> target <*> index <*> value
  | .remove => do
    let target ← expr "target"
    let index ← expr "index"
    return Stmt.remove span <$> target <*> index
  | .print => do
    let value ← expr "value"
    return Stmt.print span <$> value
  | .cond => do
    let cond ← expr "cond"
    let yes ← code "code"
    let no ← field? r.block members "else"
    return Stmt.cond span <$> cond <*> yes <*> no
  | .switch => do
    match ← value members tag.text "cases" with
    | none => return none
    | some cases =>
      push (.key "cases")
      let cases ← array "cases" r.switchCase cases
      pop
      let default ← field? r.block members "default"
      return Stmt.switch span <$> cases <*> default
  | .loop => do
    let var ← textField members tag.text "var"
    let list ← expr "list"
    let body ← code "code"
    return Stmt.loop span <$> var <*> list <*> body
  | .ret => do
    let value ← field? r.expr members "value"
    return Stmt.ret span <$> value

/-- An instruction. -/
def nextStmt (r : NodeWalker) (doc : Json) : Walk (Option (Stmt Unit)) := do
  match ← tagged doc with
  | none => return none
  | some (members, tag) => match StmtTag.ofText? tag with
    | some known =>
      let span ← enter members
      let stmt ← r.stmtForm members known span
      leave
      return stmt
    | none =>
      if (ExprTag.ofText? tag).isSome then
        let e ← r.nextExpr doc
        return (fun e => Stmt.expr e.span e) <$> e
      else
        error (.unknownInstruction tag)
        return none

end NodeWalker

/-- The walks through documents nested less than `n` deep. -/
def nodeWalker : Nat → NodeWalker
  | 0 => .bottom
  | n + 1 => ⟨fun doc => (nodeWalker n).nextExpr doc, fun doc => (nodeWalker n).nextStmt doc⟩

/-- The walk through a whole document, with empty stacks at first. -/
def Program.loadWalking (capacity : Option Nat) (doc : Json) : LoadResult :=
  let start : Walker := ⟨[], [], .empty capacity⟩
  match doc with
  | .array items =>
    let (body, w) := (nodeWalker doc.depth).stmts 0 items start
    ⟨if w.log.hasErrors then none else some body, w.log⟩
  | got =>
    let ((), w) := Walk.error (.notProgram got) start
    ⟨none, w.log⟩

/-! ## Walks and loaders -/

/-- The place that the two stacks stand for. -/
def Walker.place (w : Walker) : Place :=
  ⟨w.path, w.span⟩

/-- The position around a walk that has gone into a node. -/
theorem Walker.place_push (w : Walker) (span : Option Span) (log : ErrorLog) :
    ({ w with spans := w.spans ++ [span], log } : Walker).place = { w.place with span := span.or w.place.span } := by
  unfold place Walker.span
  rw [List.reverse_append, List.findSome?_append]
  cases span <;> rfl

/-- Two loaders side by side, with the second at the log of the first. -/
theorem Load.seq_apply {α β : Type} (f : Load (α → β)) (x : Load α) (place : Place) (log : ErrorLog) :
    (f <*> x) place log = ((f place log).1 <*> (x place (f place log).2).1, (x place (f place log).2).2) := by
  show ((f place log).1.bind fun g => (x place (f place log).2).1.map g, _) = (_ <*> _, _)
  cases (f place log).1 <;> rfl

namespace Walk

variable {α β γ δ : Type}

/-- A walk leaves both stacks as it found them, whatever it gives. -/
def Restores (walk : Walk α) : Prop :=
  ∀ w, (walk w).2.path = w.path ∧ (walk w).2.spans = w.spans

/-- A walk gives what a loader gives at its place, does to the log what the loader does, and leaves both stacks. -/
def Follows (walk : Walk (Option α)) (x : Load α) : Prop :=
  ∀ w, walk w = ((x w.place w.log).1, { w with log := (x w.place w.log).2 })

/-- The column is read without a change of the stacks; a bad one is noted as by the loader. -/
theorem column_apply (members : List (String × Json)) (w : Walker) :
    column members w = (((Json.member? "column" members).bind Json.coordinate?).getD 1,
      { w with log := (Load.column members w.place w.log).2 }) := by
  unfold column Load.column
  cases Json.member? "column" members with
  | none => rfl
  | some value =>
    simp only [Option.bind_some]
    cases value.coordinate? <;> rfl

theorem bind_apply (walk : Walk α) (k : α → Walk β) (w : Walker) : (walk >>= k) w = k (walk w).1 (walk w).2 :=
  rfl

/-- The position is read without a change of the stacks, and noted as by the loader. -/
theorem position_apply (members : List (String × Json)) (w : Walker) :
    position members w = (Json.position? members, { w with log := (Load.span members w.place w.log).2 }) := by
  unfold position Load.span Json.position?
  cases Json.member? "line" members with
  | none => rfl
  | some value =>
    simp only [Option.bind_some]
    cases value.coordinate? with
    | none => rfl
    | some line =>
      dsimp only
      rw [bind_apply, column_apply]
      rfl

/-- Going into a node puts its position on the stack, whether it has one or not. -/
theorem enter_apply (members : List (String × Json)) (w : Walker) :
    enter members w = (Json.position? members,
      { w with spans := w.spans ++ [Json.position? members], log := (Load.span members w.place w.log).2 }) := by
  rw [enter, bind_apply, position_apply]
  rfl

namespace Follows

variable {walk : Walk (Option α)} {x : Load α}

/-- A walk that follows a loader leaves both stacks as it found them. -/
theorem restores (h : Follows walk x) : Restores walk := by
  intro w
  rw [h w]
  exact ⟨rfl, rfl⟩

/-- What comes after a walk goes on from the same stacks. -/
theorem andThen (h : Follows walk x) (k : Option α → Walk β) (w : Walker) :
    (walk >>= k) w = k (x w.place w.log).1 { w with log := (x w.place w.log).2 } := by
  rw [bind_apply, h w]

/-- Into a part and back. -/
theorem through (h : Follows walk x) (segment : Segment) (k : Option α → Walk β) (w : Walker) :
    (do push segment; let a ← walk; pop; k a : Walk β) w =
      k (Load.within segment x w.place w.log).1 { w with log := (Load.within segment x w.place w.log).2 } := by
  have hpushed := h.andThen (fun a => do pop; k a) { w with path := w.path ++ [segment] }
  refine hpushed.trans ?_
  show k _ { w with path := (w.path ++ [segment]).dropLast, log := _ } = _
  rw [List.dropLast_concat]
  rfl

theorem pure (a : α) : Follows (Pure.pure (some a)) (Pure.pure a) :=
  fun _ => rfl

theorem fail (cause : LoadCause) : Follows (do error cause; return none) (Load.fail cause : Load α) :=
  fun _ => rfl

/-- What is given may be changed. -/
theorem map (f : α → β) (h : Follows walk x) : Follows (do let a ← walk; return f <$> a) (f <$> x) := by
  intro w
  rw [h.andThen]
  rfl

/-- Two walks follow two loaders side by side: the second one is made even when the first one gives nothing. -/
theorem map₂ (f : α → β → γ) (h : Follows walk x) {walk' : Walk (Option β)} {y : Load β} (h' : Follows walk' y) :
    Follows (do let a ← walk; let b ← walk'; return f <$> a <*> b) (f <$> x <*> y) := by
  intro w
  rw [h.andThen, h'.andThen, Load.seq_apply]
  rfl

/-- Three walks follow three loaders side by side. -/
theorem map₃ (f : α → β → γ → δ) (h : Follows walk x) {walk' : Walk (Option β)} {y : Load β} (h' : Follows walk' y)
    {walk'' : Walk (Option γ)} {z : Load γ} (h'' : Follows walk'' z) :
    Follows (do let a ← walk; let b ← walk'; let c ← walk''; return f <$> a <*> b <*> c) (f <$> x <*> y <*> z) := by
  intro w
  rw [h.andThen, h'.andThen, h''.andThen, Load.seq_apply, Load.seq_apply]
  rfl

/-- Into a node and back: below it, the position around is the node's own if it has one. -/
theorem throughNode {walk : Option Span → Walk (Option α)} {x : Option Span → Load α} (h : ∀ span, Follows (walk span) (x span))
    (members : List (String × Json)) (k : Option α → Walk β) (w : Walker) :
    (do let span ← enter members; let a ← walk span; leave; k a : Walk β) w =
      k (Load.node members x w.place w.log).1 { w with log := (Load.node members x w.place w.log).2 } := by
  have hinside := (h (Json.position? members)).andThen (fun a => do leave; k a)
    { w with spans := w.spans ++ [Json.position? members], log := (Load.span members w.place w.log).2 }
  rw [bind_apply, enter_apply]
  refine hinside.trans ?_
  rw [Load.node_apply]
  show k _ { w with spans := (w.spans ++ [Json.position? members]).dropLast, log := _ } = _
  rw [List.dropLast_concat, Walker.place_push]
  rfl

/-! ### Fields -/

/-- A field with a string: the walk goes into the field only to note that there is no string. -/
theorem textField (members : List (String × Json)) (tag name : String) :
    Follows (textField members tag name) (Load.field tag name (Load.text name) members) := by
  intro w
  unfold Walk.textField Walk.value Load.field
  cases Json.member? name members with
  | none => rfl
  | some value =>
    cases value with
    | string s => rfl
    | _ => exact (Follows.fail _).through (.key name) Pure.pure w

/-- A field that has to be there: the walk goes into it and comes back, whatever it finds. -/
theorem field {load : Json → Walk (Option α)} {x : Json → Load α} (h : ∀ doc, Follows (load doc) (x doc))
    (members : List (String × Json)) (tag name : String) : Follows (field load members tag name) (Load.field tag name x members) := by
  intro w
  unfold Walk.field Walk.value Load.field
  cases Json.member? name members with
  | none => rfl
  | some value => exact (h value).through (.key name) Pure.pure w

/-- A field that may be missing: there is nothing to go into then. -/
theorem field? {load : Json → Walk (Option α)} {x : Json → Load α} (h : ∀ doc, Follows (load doc) (x doc))
    (members : List (String × Json)) (name : String) : Follows (field? load members name) (Load.field? name x members) := by
  intro w
  unfold Walk.field? Load.field?
  cases Json.member? name members with
  | none => rfl
  | some value => exact (h value).through (.key name) (fun a => Pure.pure (some <$> a)) w

/-- The items of an array, each with its index on the stack while it is visited. -/
theorem items {load : Json → Walk (Option α)} {x : Json → Load α} (h : ∀ doc, Follows (load doc) (x doc)) (i : Nat)
    (docs : List Json) : Follows (items load i docs) (Load.items x i docs) := by
  induction docs generalizing i with
  | nil => exact .pure []
  | cons doc rest ih =>
    intro w
    rw [Walk.items, Load.items, (h doc).through, (ih (i + 1)).andThen, Load.seq_apply]
    rfl

/-- The members of an object, each with its name on the stack while it is visited. -/
theorem named {load : Json → Walk (Option α)} {x : Json → Load α} (h : ∀ doc, Follows (load doc) (x doc))
    (members : List (String × Json)) : Follows (named load members) (Load.named x members) := by
  induction members with
  | nil => exact .pure []
  | cons m rest ih =>
    intro w
    rw [Walk.named, Load.named, (h m.2).through, ih.andThen, Load.seq_apply]
    rfl

/-- An array is visited item by item. -/
theorem array {load : Json → Walk (Option α)} {x : Json → Load α} (h : ∀ doc, Follows (load doc) (x doc)) (name : String)
    (doc : Json) : Follows (array name load doc) (Load.array name x doc) := by
  cases doc with
  | array docs => exact items h 0 docs
  | _ => exact fail _

/-- An object is visited member by member. -/
theorem object {load : Json → Walk (Option α)} {x : Json → Load α} (h : ∀ doc, Follows (load doc) (x doc)) (name : String)
    (doc : Json) : Follows (object name load doc) (Load.object name x doc) := by
  cases doc with
  | object members => exact named h members
  | _ => exact fail _

/-- A field with an array that may be missing. -/
theorem arrayField {load : Json → Walk (Option α)} {x : Json → Load α} (h : ∀ doc, Follows (load doc) (x doc))
    (members : List (String × Json)) (name : String) : Follows (arrayField load members name) (Load.arrayField name x members) := by
  intro w
  unfold Walk.arrayField Load.arrayField Load.field?
  cases Json.member? name members with
  | none => rfl
  | some value =>
    refine ((array h name value).through (.key name) Pure.pure w).trans ?_
    have hgetD (list : Option (List α)) : (list.map some).map (·.getD []) = list := by
      cases list <;> rfl
    exact congrArg (·, _) (hgetD _).symm

/-- Parameters are looked at where the array is, without going into it. -/
theorem params (doc : Json) : Follows (params doc) (NodeLoader.params doc) := by
  cases doc with
  | array docs =>
    simp only [Walk.params, NodeLoader.params]
    cases docs.mapM Json.string? with
    | none => exact fail _
    | some names => exact pure names
  | _ => exact fail _

end Follows

end Walk

/-! ### One level more -/

/-- Walks through nodes that follow the loaders of nodes. -/
structure NodeWalker.Follows (r : NodeWalker) (l : NodeLoader) : Prop where
  expr : ∀ doc, (r.expr doc).Follows (l.expr doc)
  stmt : ∀ doc, (r.stmt doc).Follows (l.stmt doc)

namespace NodeWalker.Follows

open Walk

variable {r : NodeWalker} {l : NodeLoader}

/-- A walk through a block stops where the loader does. -/
theorem stmts (h : r.Follows l) (i : Nat) (docs : List Json) (w : Walker) :
    (l.stmts i docs w.place w.log).1 = some (r.stmts i docs w).1 ∧
      (r.stmts i docs w).2 = { w with log := (l.stmts i docs w.place w.log).2 } := by
  induction docs generalizing i w with
  | nil => exact ⟨rfl, rfl⟩
  | cons doc rest ih =>
    have hwalk : r.stmts i (doc :: rest) w = (if w.log.isFull then return [] else do
        push (.index i)
        let stmt ← r.stmt doc
        pop
        let rest ← r.stmts (i + 1) rest
        return stmt.toList ++ rest : Walk (Block Unit)) w := by
      rw [NodeWalker.stmts]
      rfl
    rw [hwalk, NodeLoader.stmts]
    split
    · exact ⟨rfl, rfl⟩
    · rw [(h.stmt doc).through, bind_apply]
      obtain ⟨hcode, hrest⟩ := ih (i + 1) { w with log := (Load.within (.index i) (l.stmt doc) w.place w.log).2 }
      exact ⟨congrArg (Option.map _) hcode, hrest⟩

/-- A walk through a block follows the loader of the block. -/
theorem block (h : r.Follows l) (doc : Json) : (r.block doc).Follows (l.block doc) := by
  cases doc with
  | array docs =>
    intro w
    obtain ⟨hcode, hrest⟩ := h.stmts 0 docs w
    simp only [NodeWalker.block, NodeLoader.block]
    rw [bind_apply, hcode, hrest]
    rfl
  | _ => exact .fail _

/-- A walk through a case of a switch goes into it as into a node and comes back. -/
theorem switchCase (h : r.Follows l) (doc : Json) : (r.switchCase doc).Follows (l.switchCase doc) := by
  cases doc with
  | object members =>
    intro w
    have hcase (span : Option Span) := Walk.Follows.map₂ Prod.mk (.field h.expr members "case" "cond")
      (.field h.block members "case" "code")
    exact (Walk.Follows.throughNode hcase members Pure.pure w)
  | _ => exact .fail _

/-- The fields of an expression node are visited in the same order, tag by tag. -/
theorem exprForm (h : r.Follows l) (members : List (String × Json)) (tag : ExprTag) (span : Option Span) :
    (r.exprForm members tag span).Follows (l.exprForm members tag span) := by
  have expr (name : String) : (field r.expr members tag.text name).Follows (Load.field tag.text name l.expr members) :=
    .field h.expr members tag.text name
  cases tag with
  | convert goal => exact .map _ (expr _)
  | binary op => exact .map₂ _ (expr _) (expr _)
  | not => exact .map _ (expr _)
  | len => exact .map _ (expr _)
  | typeOf => exact .map _ (expr _)
  | getVar => exact .map _ (.textField members _ _)
  | list => exact .map _ (.arrayField h.expr members _)
  | range => exact .map₂ _ (expr _) (expr _)
  | subscript => exact .map₂ _ (expr _) (expr _)
  | join => exact .map₂ _ (expr _) (expr _)
  | input => exact .map _ (.field? h.expr members _)
  | func => exact .map₂ _ (.field .params members _ _) (.field h.block members _ _)
  | call => exact .map₃ _ (expr _) (.arrayField h.expr members _) (.field? (.object h.expr _) members _)

/-- The fields of an instruction node are visited in the same order, tag by tag. -/
theorem stmtForm (h : r.Follows l) (members : List (String × Json)) (tag : StmtTag) (span : Option Span) :
    (r.stmtForm members tag span).Follows (l.stmtForm members tag span) := by
  have expr (name : String) : (field r.expr members tag.text name).Follows (Load.field tag.text name l.expr members) :=
    .field h.expr members tag.text name
  have code (name : String) : (field r.block members tag.text name).Follows (Load.field tag.text name l.block members) :=
    .field h.block members tag.text name
  cases tag with
  | setVar => exact .map₂ _ (.textField members _ _) (expr _)
  | compound op => exact .map₂ _ (expr _) (expr _)
  | append => exact .map₂ _ (expr _) (expr _)
  | insert => exact .map₃ _ (expr _) (expr _) (expr _)
  | remove => exact .map₂ _ (expr _) (expr _)
  | print => exact .map _ (expr _)
  | cond => exact .map₃ _ (expr _) (code _) (.field? h.block members _)
  | switch =>
    intro w
    simp only [NodeWalker.stmtForm, NodeLoader.stmtForm, Walk.value]
    cases Json.member? "cases" members with
    | none => rfl
    | some cases =>
      have hcases := (Walk.Follows.array h.switchCase "cases" cases).through (.key "cases") (fun cases => do
        let default ← field? r.block members "default"
        return Stmt.switch span <$> cases <*> default) w
      dsimp only
      refine hcases.trans ?_
      rw [(Walk.Follows.field? h.block members "default").andThen, Load.seq_apply]
      rfl
  | loop => exact .map₃ _ (.textField members _ _) (expr _) (code _)
  | ret => exact .map _ (.field? h.expr members _)

/-- A walk gives up on a document without a tag, where the loader does. -/
theorem tagged {α : Type} {walk : List (String × Json) → String → Walk (Option α)} {x : List (String × Json) → String → Load α}
    (h : ∀ members tag, (walk members tag).Follows (x members tag)) (doc : Json) :
    Walk.Follows (do
      match ← Walk.tagged doc with
      | none => return none
      | some (members, tag) => walk members tag) (NodeLoader.tagged doc x) := by
  intro w
  cases doc with
  | object members =>
    simp only [Walk.tagged, NodeLoader.tagged]
    cases Json.member? "type" members with
    | none => rfl
    | some got =>
      cases got with
      | string tag => exact h members tag w
      | _ => rfl
  | _ => rfl

/-- A walk through an expression refuses an unknown tag before it goes in, where the loader does. -/
theorem nextExpr (h : r.Follows l) (doc : Json) : (r.nextExpr doc).Follows (l.nextExpr doc) := by
  cases doc with
  | bool b | string b | float b => exact .pure _
  | int n =>
    simp only [NodeWalker.nextExpr, NodeLoader.nextExpr]
    split
    · exact .pure _
    · exact .fail _
  | object members =>
    refine tagged (fun members tag => ?_) (.object members)
    cases ExprTag.ofText? tag with
    | none => exact .fail _
    | some known => exact Walk.Follows.throughNode (h.exprForm members known) members Pure.pure
  | null | array => exact .fail _

/-- A walk through an instruction goes on as one through an expression if the tag is that of one. -/
theorem nextStmt (h : r.Follows l) (doc : Json) : (r.nextStmt doc).Follows (l.nextStmt doc) := by
  refine tagged (fun members tag => ?_) doc
  cases StmtTag.ofText? tag with
  | some known => exact Walk.Follows.throughNode (h.stmtForm members known) members Pure.pure
  | none =>
    dsimp only
    split
    · exact .map _ (h.nextExpr doc)
    · exact .fail _

end NodeWalker.Follows

/-- The walks of every level follow the loaders of that level. -/
theorem NodeWalker.follows_loader (n : Nat) : (nodeWalker n).Follows (nodeLoader n) := by
  induction n with
  | zero => exact ⟨fun _ => .fail _, fun _ => .fail _⟩
  | succ n ih => exact ⟨ih.nextExpr, ih.nextStmt⟩

/-- A walk from empty stacks loads a document as the loader does. -/
theorem Program.loadWalking_eq (capacity : Option Nat) (doc : Json) : loadWalking capacity doc = loadWith capacity doc := by
  cases doc with
  | array items =>
    let start : Walker := ⟨[], [], .empty capacity⟩
    obtain ⟨hbody, hlog⟩ := (NodeWalker.follows_loader (Json.array items).depth).stmts 0 items start
    show LoadResult.mk (if ((nodeWalker (Json.array items).depth).stmts 0 items start).2.log.hasErrors then none
      else some ((nodeWalker (Json.array items).depth).stmts 0 items start).1) _ = _
    rw [← hbody, hlog]
    rfl
  | _ => rfl

/-! ## No way out without a pop -/

/-- Every walk through a node or a part of one leaves both stacks as it found them. -/
structure NodeWalker.Balanced (r : NodeWalker) : Prop where
  expr : ∀ doc, (r.expr doc).Restores
  stmt : ∀ doc, (r.stmt doc).Restores
  block : ∀ doc, (r.block doc).Restores
  switchCase : ∀ doc, (r.switchCase doc).Restores
  exprForm : ∀ members tag span, (r.exprForm members tag span).Restores
  stmtForm : ∀ members tag span, (r.stmtForm members tag span).Restores
  tagged : ∀ doc, (Walk.tagged doc).Restores
  value : ∀ members tag name, (Walk.value members tag name).Restores
  textField : ∀ members tag name, (Walk.textField members tag name).Restores
  exprField : ∀ members tag name, (Walk.field r.expr members tag name).Restores
  exprField? : ∀ members name, (Walk.field? r.expr members name).Restores
  blockField : ∀ members tag name, (Walk.field r.block members tag name).Restores
  blockField? : ∀ members name, (Walk.field? r.block members name).Restores
  exprsField : ∀ members name, (Walk.arrayField r.expr members name).Restores
  kwargsField : ∀ members, (Walk.field? (Walk.object "kwargs" r.expr) members "kwargs").Restores
  paramsField : ∀ members tag name, (Walk.field Walk.params members tag name).Restores
  cases : ∀ doc, (Walk.array "cases" r.switchCase doc).Restores

/-- Looking up a field moves nothing, also when it is missing. -/
theorem Walk.value_restores (members : List (String × Json)) (tag name : String) : (Walk.value members tag name).Restores := by
  intro w
  unfold Walk.value
  cases Json.member? name members <;> exact ⟨rfl, rfl⟩

/-- Looking for the tag moves nothing, also when there is none. -/
theorem Walk.tagged_restores (doc : Json) : (Walk.tagged doc).Restores := by
  intro w
  cases doc with
  | object members =>
    simp only [Walk.tagged]
    cases Json.member? "type" members with
    | none => exact ⟨rfl, rfl⟩
    | some got => cases got <;> exact ⟨rfl, rfl⟩
  | _ => exact ⟨rfl, rfl⟩

/-- Walks that follow loaders are balanced, as are their parts. -/
theorem NodeWalker.Follows.balanced {r : NodeWalker} {l : NodeLoader} (h : r.Follows l) : r.Balanced where
  expr doc := (h.expr doc).restores
  stmt doc := (h.stmt doc).restores
  block doc := (h.block doc).restores
  switchCase doc := (h.switchCase doc).restores
  exprForm members tag span := (h.exprForm members tag span).restores
  stmtForm members tag span := (h.stmtForm members tag span).restores
  tagged := Walk.tagged_restores
  value := Walk.value_restores
  textField members tag name := (Walk.Follows.textField members tag name).restores
  exprField members tag name := (Walk.Follows.field h.expr members tag name).restores
  exprField? members name := (Walk.Follows.field? h.expr members name).restores
  blockField members tag name := (Walk.Follows.field h.block members tag name).restores
  blockField? members name := (Walk.Follows.field? h.block members name).restores
  exprsField members name := (Walk.Follows.arrayField h.expr members name).restores
  kwargsField members := (Walk.Follows.field? (.object h.expr "kwargs") members "kwargs").restores
  paramsField members tag name := (Walk.Follows.field .params members tag name).restores
  cases doc := (Walk.Follows.array h.switchCase "cases" doc).restores

/-- A trail leads to a part of the document. -/
theorem Json.Trail.resolves {root part : Json} {path : Path} {role : Role} {nodes : List (List (String × Json))}
    (h : root.Trail path role part nodes) : root.Resolves path part := by
  induction h with
  | root => exact .root
  | step _ next ih =>
    cases next with
    | item _ hitem => exact ih.item hitem
    | named hmem => exact ih.member hmem
    | field _ hvalue =>
      obtain ⟨before, after, rfl, -⟩ := List.lookup_eq_some_iff.mp hvalue
      exact ih.member (by simp)

/-- Where a load says that an error is, there is something. Every walk of every level, whatever it finds, leaves both stacks as it
found them; the walk from empty stacks loads what the loader loads, with the same log; and the path of each error is the text of
keys and indices that lead from the document to a value in it. If no object has a key twice, as in every document of a text,
following the path finds that value. -/
theorem load_error_paths_resolve (capacity : Option Nat) (doc : Json) :
    (∀ n, (nodeWalker n).Balanced) ∧
    Program.loadWalking capacity doc = Program.loadWith capacity doc ∧
    (∀ source, Json.parse? source = some doc → doc.Distinct) ∧
    ∀ e ∈ (Program.loadWith capacity doc).log.errors, ∃ path value,
      e.path = Path.text path ∧ doc.Resolves path value ∧ (doc.Distinct → doc.get? path = some value) := by
  refine ⟨fun n => (NodeWalker.follows_loader n).balanced, Program.loadWalking_eq capacity doc,
    fun source h => Json.distinct_of_parse? h, fun e he => ?_⟩
  obtain ⟨cause, path, role, part, nodes, htrail, rfl⟩ := Program.noted_of_mem_errors capacity doc he
  exact ⟨path, part, rfl, htrail.resolves, htrail.resolves.get?⟩

/-- The path of the error leads to the expression that no one knows. -/
theorem load_error_paths_resolve_unknownInside :
    ∃ e ∈ (Program.loadWith (some ErrorLog.limit) unknownInside).log.errors, e.path = "$[0].value" ∧
      unknownInside.Distinct ∧ ∃ path value, e.path = Path.text path ∧ unknownInside.get? path = some value := by
  have hdistinct : unknownInside.Distinct := by
    have hinner : (Json.object [("type", .string "nope")]).Distinct :=
      .object (by decide) (List.forall_mem_singleton.mpr (.string _))
    refine .array (List.forall_mem_singleton.mpr (.object (by decide) ?_))
    simp only [List.forall_mem_cons]
    exact ⟨.string _, .int _, .int _, hinner, List.forall_mem_nil _⟩
  obtain ⟨-, -, -, hpaths⟩ := load_error_paths_resolve (some ErrorLog.limit) unknownInside
  obtain ⟨path, value, hpath, -, hget⟩ := hpaths _ mem_errors_unknownInside
  exact ⟨_, mem_errors_unknownInside, rfl, hdistinct, path, value, hpath, hget hdistinct⟩

end NodeScript
