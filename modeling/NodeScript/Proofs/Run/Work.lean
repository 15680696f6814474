import NodeScript.Proofs.Run.Scope
import NodeScript.Run.Session

/-!
# The work of a run

A run is work that leads to other work: an expression to its operands, a call to the body of the function, a loop to its body,
again and again. `Leads` says which work in which state the interpreter comes to next from a piece of work, and `Reaches` is any
number of such steps. Only a call changes the depth, and only below the limit, so no state that a run reaches from depth zero is
deeper than the limit (`Reaches.depth_le`). A run passes through the states in which it comes to work and those in which it
leaves work (`Visits`); the state it ends in is one of them (`Program.visits_runWith`).
-/

namespace NodeScript

section

variable {φ : Type}

/-- The expressions whose values an expression takes, in order. -/
def Expr.operands : Expr φ → List (Expr φ)
  | .convert _ _ value | .not _ value | .len _ value | .typeOf _ value => [value]
  | .binary _ _ left right => [left, right]
  | .range _ start stop => [start, stop]
  | .subscript _ target index => [target, index]
  | .join _ target separator => [target, separator]
  | .input _ prompt => prompt.toList
  | .literal _ _ | .getVar _ _ | .list _ _ | .func _ _ _ _ | .call _ _ _ _ => []

/-- The expressions whose values an instruction takes first, in order. A compound assignment takes those of its target in its
own way. -/
def Stmt.operands : Stmt φ → List (Expr φ)
  | .append _ target _ => [target]
  | .insert _ target index _ | .remove _ target index => [target, index]
  | .print _ value | .expr _ value => [value]
  | .cond _ test _ _ => [test]
  | .loop _ _ list _ => [list]
  | .setVar _ _ _ | .compound _ _ _ _ | .switch _ _ _ | .ret _ _ => []

/-- The expression whose slot an instruction takes after its operands. -/
def Stmt.stored : Stmt φ → Option (Expr φ)
  | .setVar _ _ value | .append _ _ value | .insert _ _ _ value => some value
  | .ret _ value => value
  | _ => none

end

/-- A piece of work of a run. -/
inductive Work where
  /-- The value of an expression. -/
  | value (e : Expr FuncId)
  /-- A slot with the value of an expression. -/
  | slot (e : Expr FuncId)
  /-- An instruction. -/
  | stmt (s : Stmt FuncId)
  /-- The values of expressions, from left to right. -/
  | values (es : List (Expr FuncId))
  /-- Slots of expressions, from left to right. -/
  | slots (es : List (Expr FuncId))
  /-- Slots of named expressions, from left to right. -/
  | named (es : List (String × Expr FuncId))
  /-- A call whose function and arguments are still to be evaluated. -/
  | call (target : Expr FuncId) (args : List (Expr FuncId)) (kwargs : List (String × Expr FuncId))
  /-- A call of a function with slots. -/
  | invoke (f : Func) (args : List SlotId) (kwargs : List (String × SlotId))
  /-- Instructions one after the other. -/
  | block (code : Block FuncId)
  /-- What is left of a switch. -/
  | cases (cases : List (Expr FuncId × Block FuncId)) (default : Option (Block FuncId))
  /-- What is left of a loop. -/
  | pass (var : String) (code : Block FuncId) (cursor : Cursor)

/-- The work is to evaluate an expression, to its value or to a slot. -/
def Work.Evaluates : Work → Expr FuncId → Prop
  | .value e', e | .slot e', e => e' = e
  | _, _ => False

/-- The values of expressions, from left to right. -/
def Interp.values (r : Interp) : List (Expr FuncId) → Exec (List Value)
  | [] => pure []
  | e :: rest => do
    let v ← r.expr e
    let rest ← values r rest
    return v :: rest

/-- `Leads limit r w m w' m'`: the work `w` in the state `m` comes to the work `w'` in the state `m'` as a part of it, where `r`
does what lies before. -/
inductive Leads (limit : Nat) (r : Interp) : Work → Machine → Work → Machine → Prop where
  | operands {w : Work} {m : Machine} {e : Expr FuncId} (hw : w.Evaluates e) : Leads limit r w m (.values e.operands) m
  | items {w : Work} {m : Machine} {items : List (Expr FuncId)} {span : Option Span} (hw : w.Evaluates (.list span items)) :
      Leads limit r w m (.slots items) m
  | call {w : Work} {m : Machine} {target : Expr FuncId} {args : List (Expr FuncId)} {kwargs : List (String × Expr FuncId)}
      {span : Option Span} (hw : w.Evaluates (.call span target args kwargs)) : Leads limit r w m (.call target args kwargs) m
  -- Sequences of expressions.
  | valuesHead {e : Expr FuncId} {es : List (Expr FuncId)} {m : Machine} : Leads limit r (.values (e :: es)) m (.value e) m
  | valuesTail {e : Expr FuncId} {m m' : Machine} {v : Value} {es : List (Expr FuncId)} (h : r.expr e m = .ok v m') :
      Leads limit r (.values (e :: es)) m (.values es) m'
  | slotsHead {e : Expr FuncId} {es : List (Expr FuncId)} {m : Machine} : Leads limit r (.slots (e :: es)) m (.slot e) m
  | slotsTail {e : Expr FuncId} {m m' : Machine} {s : SlotId} {es : List (Expr FuncId)} (h : r.slot e m = .ok s m') :
      Leads limit r (.slots (e :: es)) m (.slots es) m'
  | namedHead {name : String} {e : Expr FuncId} {es : List (String × Expr FuncId)} {m : Machine} :
      Leads limit r (.named ((name, e) :: es)) m (.slot e) m
  | namedTail {e : Expr FuncId} {m m' : Machine} {s : SlotId} {name : String} {es : List (String × Expr FuncId)}
      (h : r.slot e m = .ok s m') : Leads limit r (.named ((name, e) :: es)) m (.named es) m'
  -- Calls: the function, the arguments, and, if the limit allows it, the body in an environment of its own.
  | callTarget {target : Expr FuncId} {args : List (Expr FuncId)} {kwargs : List (String × Expr FuncId)} {m : Machine} :
      Leads limit r (.call target args kwargs) m (.value target) m
  | callArgs {target : Expr FuncId} {m m' : Machine} {f : Func} {args : List (Expr FuncId)} {kwargs : List (String × Expr FuncId)}
      (ht : r.expr target m = .ok (.func f) m') : Leads limit r (.call target args kwargs) m (.slots args) m'
  | callNamed {target : Expr FuncId} {m m₁ m₂ : Machine} {f : Func} {args : List (Expr FuncId)} {slots : List SlotId}
      {kwargs : List (String × Expr FuncId)} (ht : r.expr target m = .ok (.func f) m₁) (ha : r.slots args m₁ = .ok slots m₂) :
      Leads limit r (.call target args kwargs) m (.named kwargs) m₂
  | callInvoke {target : Expr FuncId} {m m₁ m₂ m₃ : Machine} {f : Func} {args : List (Expr FuncId)} {slots : List SlotId}
      {kwargs : List (String × Expr FuncId)} {named : List (String × SlotId)} (ht : r.expr target m = .ok (.func f) m₁)
      (ha : r.slots args m₁ = .ok slots m₂) (hk : r.namedSlots kwargs m₂ = .ok named m₃) :
      Leads limit r (.call target args kwargs) m (.invoke f slots named) m₃
  | body {f : Func} {args : List SlotId} {kwargs : List (String × SlotId)} {env : Env} {m : Machine} (hd : m.depth < limit)
      (he : Interp.callEnv m.heap f args kwargs m.env = .ok env) :
      Leads limit r (.invoke f args kwargs) m (.block f.code) { m with env, depth := m.depth + 1 }
  -- Instructions. At depth zero a `return` fails before it evaluates anything.
  | stmtOperands {s : Stmt FuncId} {m : Machine} : Leads limit r (.stmt s) m (.values s.operands) m
  | stmtStored {e : Expr FuncId} {s : Stmt FuncId} {m m' : Machine} {vs : List Value} (he : s.stored = some e)
      (hret : ∀ span value, s = .ret span value → m.depth ≠ 0) (ho : r.values s.operands m = .ok vs m') :
      Leads limit r (.stmt s) m (.slot e) m'
  | compoundContainer {span span' : Option Span} {op : ArithOp} {container index value : Expr FuncId} {m : Machine} :
      Leads limit r (.stmt (.compound span op (.subscript span' container index) value)) m (.value container) m
  | compoundIndex {container index value : Expr FuncId} {m m' : Machine} {l : ListId} {span span' : Option Span} {op : ArithOp}
      (hc : r.expr container m = .ok (.list l) m') :
      Leads limit r (.stmt (.compound span op (.subscript span' container index) value)) m (.value index) m'
  | compoundValue {target value : Expr FuncId} {m m' : Machine} {s : SlotId} {span : Option Span} {op : ArithOp}
      (ht : r.targetSlot target m = .ok s m') : Leads limit r (.stmt (.compound span op target value)) m (.value value) m'
  | blockHead {s : Stmt FuncId} {rest : Block FuncId} {m : Machine} : Leads limit r (.block (s :: rest)) m (.stmt s) m
  | blockTail {s : Stmt FuncId} {m m' : Machine} {rest : Block FuncId} (h : r.stmt s m = .ok .completed m') :
      Leads limit r (.block (s :: rest)) m (.block rest) m'
  | condCode {test : Expr FuncId} {m m' : Machine} {span : Option Span} {code : Block FuncId} {otherwise : Option (Block FuncId)}
      (h : r.test test m = .ok true m') : Leads limit r (.stmt (.cond span test code otherwise)) m (.block code) m'
  | condElse {test : Expr FuncId} {m m' : Machine} {span : Option Span} {code other : Block FuncId}
      (h : r.test test m = .ok false m') : Leads limit r (.stmt (.cond span test code (some other))) m (.block other) m'
  | switch {span : Option Span} {cases : List (Expr FuncId × Block FuncId)} {last : Option (Block FuncId)} {m : Machine} :
      Leads limit r (.stmt (.switch span cases last)) m (.cases cases last) m
  | casesTest {test : Expr FuncId} {code : Block FuncId} {rest : List (Expr FuncId × Block FuncId)} {last : Option (Block FuncId)}
      {m : Machine} : Leads limit r (.cases ((test, code) :: rest) last) m (.value test) m
  | casesCode {test : Expr FuncId} {m m' : Machine} {code : Block FuncId} {rest : List (Expr FuncId × Block FuncId)}
      {last : Option (Block FuncId)} (h : r.test test m = .ok true m') :
      Leads limit r (.cases ((test, code) :: rest) last) m (.block code) m'
  | casesNext {test : Expr FuncId} {m m' : Machine} {code : Block FuncId} {rest : List (Expr FuncId × Block FuncId)}
      {last : Option (Block FuncId)} (h : r.test test m = .ok false m') :
      Leads limit r (.cases ((test, code) :: rest) last) m (.cases rest last) m'
  | casesDefault {code : Block FuncId} {m : Machine} : Leads limit r (.cases [] (some code)) m (.block code) m
  | loop {list : Expr FuncId} {m m' : Machine} {v : Value} {cursor : Cursor} {span : Option Span} {var : String}
      {code : Block FuncId} (hl : r.expr list m = .ok v m') (hc : v.cursor = .ok cursor) :
      Leads limit r (.stmt (.loop span var list code)) m (.pass var code cursor) m'
  | passBody {s : SlotId} {next cursor : Cursor} {heap : Heap} {var : String} {code : Block FuncId} {m : Machine}
      (hn : cursor.next? m.heap = (some (s, next), heap)) :
      Leads limit r (.pass var code cursor) m (.block code) { m with heap, env := m.env.bind var s }
  | passNext {s : SlotId} {next cursor : Cursor} {heap : Heap} {code : Block FuncId} {m m' : Machine} {var : String}
      (hn : cursor.next? m.heap = (some (s, next), heap))
      (hb : r.block code { m with heap, env := m.env.bind var s } = .ok .completed m') :
      Leads limit r (.pass var code cursor) m (.pass var code next) m'

/-- `Reaches limit w m w' m'`: a run of the work `w` from the state `m` comes to the work `w'` in the state `m'`. -/
inductive Reaches (limit : Nat) (w : Work) (m : Machine) : Work → Machine → Prop where
  | start : Reaches limit w m w m
  | step {w₁ w₂ : Work} {m₁ m₂ : Machine} (fuel : Nat) (h : Reaches limit w m w₁ m₁)
      (hl : Leads limit (interp limit fuel) w₁ m₁ w₂ m₂) : Reaches limit w m w₂ m₂

/-- One run after another. -/
theorem Reaches.trans {limit : Nat} {w w₁ w₂ : Work} {m m₁ m₂ : Machine} (h : Reaches limit w m w₁ m₁)
    (h' : Reaches limit w₁ m₁ w₂ m₂) : Reaches limit w m w₂ m₂ := by
  induction h' with
  | start => exact h
  | step fuel _ hl ih => exact ih.step fuel hl

/-- What a step keeps holds of the state it reaches when it has a result. -/
theorem Exec.Keeps.ok {α : Type} {R : Machine → Machine → Prop} {x : Exec α} (hx : Keeps R x) {a : α} {m m' : Machine}
    (h : x m = .ok a m') : R m m' := by
  have hm := hx m
  rw [after, h] at hm
  exact hm

/-- Evaluating expressions in a row leaves the scope as it was. -/
theorem Interp.Scoped.values {r : Interp} (hr : r.Scoped) (es : List (Expr FuncId)) : Exec.Keeps SameScope (r.values es) := by
  induction es with
  | nil => exact .pure _
  | cons e rest ih => exact (hr.expr e).bind fun v => ih.bind fun rest => .pure _

/-- Values in a row are evaluated from the first one on. -/
theorem Interp.values_cons {r : Interp} {e : Expr FuncId} {es : List (Expr FuncId)} {v : Value} {vs : List Value}
    {m m₁ m₂ : Machine} (he : r.expr e m = .ok v m₁) (hes : r.values es m₁ = .ok vs m₂) :
    r.values (e :: es) m = .ok (v :: vs) m₂ := by
  rw [Interp.values, Exec.bind_apply, he]
  show (r.values es >>= fun rest => pure (v :: rest)) m₁ = _
  rw [Exec.bind_apply, hes]
  rfl

/-- From one piece of work to the next the depth stays the same, or a call below the limit adds one. -/
theorem Leads.depth {limit : Nat} {r : Interp} (hr : r.Scoped) {w w' : Work} {m m' : Machine} (h : Leads limit r w m w' m') :
    m'.depth = m.depth ∨ m.depth < limit ∧ m'.depth = m.depth + 1 := by
  cases h with
  | body hd _ => exact .inr ⟨hd, rfl⟩
  | valuesTail h => exact .inl ((hr.expr _).ok h).depth
  | slotsTail h => exact .inl ((hr.slot _).ok h).depth
  | namedTail h => exact .inl ((hr.slot _).ok h).depth
  | callArgs ht => exact .inl ((hr.expr _).ok ht).depth
  | callNamed ht ha => exact .inl (((hr.slots _).ok ha).depth.trans ((hr.expr _).ok ht).depth)
  | callInvoke ht ha hk =>
    exact .inl ((((hr.namedSlots _).ok hk).depth.trans ((hr.slots _).ok ha).depth).trans ((hr.expr _).ok ht).depth)
  | stmtStored _ _ ho => exact .inl ((hr.values _).ok ho).depth
  | compoundIndex hc => exact .inl ((hr.expr _).ok hc).depth
  | compoundValue ht => exact .inl ((hr.targetSlot _).ok ht).depth
  | blockTail h => exact .inl ((hr.stmt _).ok h).depth
  | condCode h => exact .inl ((hr.test _).ok h).depth
  | condElse h => exact .inl ((hr.test _).ok h).depth
  | casesCode h => exact .inl ((hr.test _).ok h).depth
  | casesNext h => exact .inl ((hr.test _).ok h).depth
  | loop hl _ => exact .inl ((hr.expr _).ok hl).depth
  | passNext _ hb => exact .inl ((hr.block _).ok hb).depth
  | _ => exact .inl rfl

/-- No state that a run reaches is deeper than the limit, unless it started deeper. -/
theorem Reaches.depth_le {limit : Nat} {w w' : Work} {m m' : Machine} (h : Reaches limit w m w' m') (hm : m.depth ≤ limit) :
    m'.depth ≤ limit := by
  induction h with
  | start => exact hm
  | step fuel _ hl ih =>
    rcases hl.depth (interp_scoped limit fuel) with he | ⟨hd, he⟩
    · omega
    · omega

/-- A property of work in a state that goes over to all the work that it leads to. -/
def Inherited (limit : Nat) (r : Interp) (P : Work → Machine → Prop) : Prop :=
  ∀ {w w' : Work} {m m' : Machine}, P w m → Leads limit r w m w' m' → P w' m'

theorem Reaches.inherited {limit : Nat} (w : Work) (m : Machine) (fuel : Nat) :
    Inherited limit (interp limit fuel) (Reaches limit w m) :=
  fun h hl => h.step fuel hl

/-- A run of a program is a run of its code, with its functions numbered, from the first state. -/
theorem Program.runWith_eq (program : Program) (fuel : Nat) (config : Config) (source : Source) (sink : Sink) :
    program.runWith fuel config source sink =
      match (interp config.callLimit fuel).program (Program.number program 0).1 (.start source sink) with
      | .ok a m => (.ok a, m)
      | .error e m => (.error e, m) := by
  simp only [runWith, Session.runWith, Session.perform, Session.number, Session.start, Session.interpWith]
  cases (interp config.callLimit fuel).program (Program.number program 0).1 (.start source sink) <;> rfl

/-! ## The states of a run -/

/-- The state in which a piece of work leaves the interpreter with an amount of fuel, whatever its outcome. -/
def Work.after (limit fuel : Nat) : Work → Machine → Machine
  | .value e => ((interp limit fuel).expr e).after
  | .slot e => ((interp limit fuel).slot e).after
  | .stmt s => ((interp limit fuel).stmt s).after
  | .values es => ((interp limit fuel).values es).after
  | .slots es => ((interp limit fuel).slots es).after
  | .named es => ((interp limit fuel).namedSlots es).after
  | .call target args kwargs => (Interp.call limit (interp limit fuel) target args kwargs).after
  | .invoke f args kwargs => (Interp.invoke limit (interp limit fuel) f args kwargs).after
  | .block code => ((interp limit fuel).block code).after
  | .cases choices default => ((interp limit fuel).switch default choices).after
  | .pass var code cursor => ((interp limit fuel).loop var code fuel cursor).after

/-- `Visits limit w m m'`: a run of the work `w` from the state `m` passes through the state `m'`. It comes to a piece of work in
it, or leaves one in it. -/
inductive Visits (limit : Nat) (w : Work) (m : Machine) : Machine → Prop where
  | reached {w' : Work} {m' : Machine} (h : Reaches limit w m w' m') : Visits limit w m m'
  | done {w' : Work} {m' : Machine} (h : Reaches limit w m w' m') (fuel : Nat) : Visits limit w m (w'.after limit fuel m')

/-- The flush at the end of a program does not change its state. -/
theorem Interp.after_program (r : Interp) (code : Block FuncId) (m : Machine) :
    (r.program code).after m = (r.block code).after m := by
  unfold Interp.program Exec.after
  rw [Exec.bind_apply]
  cases r.block code m with
  | error e m' => rfl
  | ok flow m' =>
    cases flow with
    | completed =>
      show Exec.after Exec.flush m' = m'
      unfold Exec.after Exec.flush
      cases m'.sink.flushFault <;> rfl
    | returned s => rfl

/-- A program passes through the state that it ends in. -/
theorem Program.visits_runWith (program : Program) (fuel : Nat) (config : Config) (source : Source) (sink : Sink) :
    Visits config.callLimit (.block (Program.number program 0).1) (.start source sink)
      (program.runWith fuel config source sink).2 := by
  have hafter : (program.runWith fuel config source sink).2 =
      (Work.block (Program.number program 0).1).after config.callLimit fuel (.start source sink) := by
    rw [Program.runWith_eq, Work.after, ← Interp.after_program, Exec.after]
    cases (interp config.callLimit fuel).program (Program.number program 0).1 (.start source sink) <;> rfl
  rw [hafter]
  exact .done .start fuel

end NodeScript
