import NodeScript.Run.Machine
import NodeScript.Tree.Tag

/-!
# Running programs

An interpreter evaluates expressions, to a value or to a slot, and executes instructions. It is built level by level: the
interpreter of one level more does one node and leaves the nodes inside to the one below. A level is thus the fuel of a run,
and bounds how deep nodes are nested in it and how often each loop goes round.
-/

namespace NodeScript

/-- How instructions ended: they ran to their end, or a `return` left them with the slot of its value. -/
inductive Flow where
  | completed
  | returned (s : SlotId)

/-- What evaluates and executes nodes. -/
structure Interp where
  /-- The value of an expression. -/
  expr : Expr FuncId → Exec Value
  /-- A slot with the value of an expression: that of the variable, of the list element or of the function's result, where it
  is one of these, and else a new one. -/
  slot : Expr FuncId → Exec SlotId
  /-- Executes an instruction. -/
  stmt : Stmt FuncId → Exec Flow

namespace Interp

/-- Without fuel nothing is done. -/
def exhausted : Interp where
  expr _ := throw .outOfFuel
  slot _ := throw .outOfFuel
  stmt _ := throw .outOfFuel

/-! ## Sequences of nodes -/

/-- Slots of expressions, from left to right. -/
def slots (r : Interp) : List (Expr FuncId) → Exec (List SlotId)
  | [] => pure []
  | e :: rest => do
    let s ← r.slot e
    let rest ← slots r rest
    return s :: rest

/-- Slots of named expressions, from left to right. -/
def namedSlots (r : Interp) : List (String × Expr FuncId) → Exec (List (String × SlotId))
  | [] => pure []
  | (name, e) :: rest => do
    let s ← r.slot e
    let rest ← namedSlots r rest
    return (name, s) :: rest

/-- Executes instructions until one returns. -/
def block (r : Interp) : Block FuncId → Exec Flow
  | [] => pure .completed
  | stmt :: rest => do
    match ← r.stmt stmt with
    | .returned s => return .returned s
    | .completed => block r rest

/-! ## Calls -/

/-- Binds the arguments that are given by name, and gives the parameters that are left. A name has to be one of those. -/
def bindNamed : List (String × SlotId) → List String → Env → Except Fault (List String × Env)
  | [], params, env => .ok (params, env)
  | (name, s) :: rest, params, env =>
    if params.contains name then bindNamed rest (params.erase name) (env.bind name s)
    else .error (.unknownParameter name)

/-- The environment that the body of a function starts in: that of the caller, with the arguments bound on top. What is left
of the parameters after those given by name takes the other arguments in order. -/
def callEnv (h : Heap) (f : Func) (args : List SlotId) (kwargs : List (String × SlotId)) (env : Env) : Except Fault Env := do
  let (params, env) ← bindNamed kwargs f.params env
  if params.length = args.length then return env.bindAll (params.zip args)
  else throw (.argumentCount params.length (args.map fun s => h.describe (h.get s)))

/-- Runs a step in an environment of its own, one call deeper. The caller's environment and depth are back afterwards,
whatever the step did. -/
def enter {α : Type} (env : Env) (x : Exec α) : Exec α := fun ⟨callerEnv, heap, source, sink, depth⟩ =>
  match x ⟨env, heap, source, sink, depth + 1⟩ with
  | .ok a ⟨_, heap, source, sink, _⟩ => .ok a ⟨callerEnv, heap, source, sink, depth⟩
  | .error e ⟨_, heap, source, sink, _⟩ => .error e ⟨callerEnv, heap, source, sink, depth⟩

/-- Runs the body of a function in an environment of its own. Without a `return` its result is void. -/
def runBody (r : Interp) (f : Func) (env : Env) : Exec SlotId := do
  match ← enter env (r.block f.code) with
  | .returned s => return s
  | .completed => Exec.alloc .void

/-- Calls a function, when fewer than `limit` calls are open. -/
def invoke (limit : Nat) (r : Interp) (f : Func) (args : List SlotId) (kwargs : List (String × SlotId)) : Exec SlotId := do
  let m ← get
  if limit ≤ m.depth then Exec.fault (.callDepth limit)
  else
    let env ← Exec.lift (callEnv m.heap f args kwargs m.env)
    r.runBody f env

/-- Evaluates the function and the arguments, from left to right, and calls. -/
def call (limit : Nat) (r : Interp) (target : Expr FuncId) (args : List (Expr FuncId))
    (kwargs : List (String × Expr FuncId)) : Exec SlotId := do
  match ← r.expr target with
  | .func f =>
    let args ← r.slots args
    let kwargs ← r.namedSlots kwargs
    invoke limit r f args kwargs
  | v => Exec.fault (.mismatch (.notCallable v.type))

/-! ## Expressions -/

/-- Writes the prompt, if there is one, and reads a line. -/
def input (r : Interp) (prompt : Option (Expr FuncId)) : Exec Value := do
  match prompt with
  | none => pure ()
  | some e =>
    let v ← r.expr e
    let text ← Exec.lift v.scalarText
    Exec.write text
  Exec.flush
  let line ← Exec.readLine
  return .string line

/-- The value of an expression, before a failure gets its position. -/
def exprForm (limit : Nat) (r : Interp) : Expr FuncId → Exec Value
  | .literal _ value => pure value.value
  | .convert _ goal value => do
    let v ← r.expr value
    Exec.look fun h => v.convert h goal
  | .binary _ op left right => do
    let a ← r.expr left
    let b ← r.expr right
    Exec.look fun h => Value.binary h op a b
  | .not _ value => do
    let v ← r.expr value
    Exec.lift v.negation
  | .len _ target => do
    let v ← r.expr target
    Exec.look fun h => v.length h
  | .typeOf _ value => do
    let v ← r.expr value
    return .string v.type.name
  | .getVar _ name => do
    let s ← Exec.slotOf name
    Exec.read s
  | .list _ items => do
    let slots ← r.slots items
    let l ← Exec.change fun h => h.newList slots.toArray
    return .list l
  | .range _ start stop => do
    let a ← r.expr start
    let b ← r.expr stop
    return .range a b
  | .subscript _ target index => do
    let v ← r.expr target
    let i ← r.expr index
    Exec.look fun h => Value.subscript h v i
  | .join _ target separator => do
    let v ← r.expr target
    let s ← r.expr separator
    Exec.look fun h => h.join v s
  | .input _ prompt => r.input prompt
  | .func _ label params code => pure (.func ⟨label, params, code⟩)
  | .call _ target args kwargs => do
    let s ← call limit r target args kwargs
    Exec.read s

/-- The slot of a part of a sequence: the element's own for a list, else a new one. -/
def elementSlot (target index : Value) : Exec SlotId :=
  match target with
  | .list l => Exec.look fun h => do h.slotAt l (← index.index)
  | v => do
    let part ← Exec.look fun h => Value.subscript h v index
    Exec.alloc part

/-- A slot with the value of an expression. -/
def nextSlot (limit : Nat) (r : Interp) (e : Expr FuncId) : Exec SlotId :=
  match e with
  | .getVar span name => Exec.located span (Exec.slotOf name)
  | .subscript span target index => do
    let v ← r.expr target
    let i ← r.expr index
    Exec.located span (elementSlot v i)
  | .call span target args kwargs => Exec.located span (call limit r target args kwargs)
  | e => do
    let v ← Exec.located e.span (exprForm limit r e)
    Exec.alloc v

/-! ## Instructions -/

/-- Whether a condition holds. -/
def test (r : Interp) (e : Expr FuncId) : Exec Bool := do
  let v ← r.expr e
  Exec.located e.span (Exec.look fun h => v.truth h)

/-- The slot that a compound assignment works on: that of a variable or of a list element. -/
def targetSlot (r : Interp) (target : Expr FuncId) : Exec SlotId :=
  match target with
  | .getVar span name => Exec.located span (Exec.slotOf name)
  | .subscript span container index => do
    match ← r.expr container with
    | .list l =>
      let i ← r.expr index
      let i ← Exec.lift i.index
      Exec.located span (Exec.look fun h => h.slotAt l i)
    | v => Exec.located span (Exec.fault (.notAssignable (.element v.type)))
  | e => Exec.located e.span (Exec.fault (.notAssignable (.expression e.tag)))

/-- Replaces the value of the target's slot by that of the operator between it and another value. -/
def compound (r : Interp) (op : ArithOp) (target value : Expr FuncId) : Exec Unit := do
  let s ← r.targetSlot target
  let b ← r.expr value
  let a ← Exec.read s
  let v ← Exec.look fun h => Value.arith h op a b
  Exec.change fun h => ((), h.set s v)

/-- The first case whose condition holds, or the default if there is one. -/
def switch (r : Interp) (default : Option (Block FuncId)) : List (Expr FuncId × Block FuncId) → Exec Flow
  | [] => match default with
    | some code => r.block code
    | none => pure .completed
  | (cond, code) :: rest => do
    if ← r.test cond then r.block code else switch r default rest

/-- Goes through the rest of a sequence: binds the variable to each item and runs the body, until it returns. -/
def loop (r : Interp) (var : String) (code : Block FuncId) : Nat → Cursor → Exec Flow
  | 0, _ => throw .outOfFuel
  | fuel + 1, cursor => do
    match ← Exec.change fun h => cursor.next? h with
    | none => return .completed
    | some (s, cursor) =>
      Exec.bind var s
      match ← r.block code with
      | .returned s => return .returned s
      | .completed => loop r var code fuel cursor

/-- Executes an instruction, before a failure gets its position. -/
def stmtForm (fuel : Nat) (r : Interp) : Stmt FuncId → Exec Flow
  | .setVar _ name value => do
    let s ← r.slot value
    Exec.bind name s
    return .completed
  | .compound _ op target value => do
    r.compound op target value
    return .completed
  | .append _ target value => do
    let v ← r.expr target
    let s ← r.slot value
    let l ← Exec.lift (v.listFor .append)
    Exec.change fun h => ((), h.append l s)
    return .completed
  | .insert _ target index value => do
    let v ← r.expr target
    let i ← r.expr index
    let s ← r.slot value
    Exec.update fun h => Value.insert h v i s
    return .completed
  | .remove _ target index => do
    let v ← r.expr target
    let i ← r.expr index
    Exec.update fun h => Value.remove h v i
    return .completed
  | .print _ value => do
    let v ← r.expr value
    let text ← Exec.look fun h => h.render v
    Exec.write (text ++ "\n")
    return .completed
  | .cond _ cond code otherwise => do
    if ← r.test cond then r.block code
    else match otherwise with
      | some code => r.block code
      | none => return .completed
  | .switch _ cases default => r.switch default cases
  | .loop _ var list code => do
    let v ← r.expr list
    let cursor ← Exec.lift v.cursor
    r.loop var code fuel cursor
  | .ret _ value => do
    let m ← get
    if m.depth = 0 then Exec.fault .returnOutsideFunction
    else match value with
      | some e =>
        let s ← r.slot e
        return .returned s
      | none =>
        let s ← Exec.alloc .void
        return .returned s
  | .expr _ value => do
    let _ ← r.expr value
    return .completed

/-- The interpreter of one level more. -/
def next (limit fuel : Nat) (r : Interp) : Interp where
  expr e := Exec.located e.span (exprForm limit r e)
  slot e := nextSlot limit r e
  stmt s := Exec.located s.span (stmtForm fuel r s)

end Interp

/-- The interpreter with an amount of fuel, which lets at most `limit` calls be open at once. -/
def interp (limit : Nat) : Nat → Interp
  | 0 => .exhausted
  | fuel + 1 => Interp.next limit fuel
    ⟨fun e m => (interp limit fuel).expr e m, fun e m => (interp limit fuel).slot e m, fun s m => (interp limit fuel).stmt s m⟩

end NodeScript
