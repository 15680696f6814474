import NodeScript.Proofs.Run.Arguments
import NodeScript.Proofs.Run.Effects
import NodeScript.Proofs.Run.Output

/-!
# Names that are not mentioned

A call starts from the environment of its caller, so a name that is bound anywhere can be seen in every function that is called from
there. It can be seen only by its name: from two states that differ in what one name is bound to, code that does not mention the name
does the same, and so do the functions that it calls, if none of them mentions it either. A step that ignores a name
(`Exec.Ignores`) does the same whatever the name is bound to, and leaves it bound as it was. The ways to put steps together keep to
this as long as the work at hand does not use the name itself (`Interp.Ignores.next`), and work under a regime of nodes without
the name never does (`unused_spares`).
-/

namespace NodeScript

/-! ## Environments that agree except on a name -/

namespace Env

/-- Every other name is bound to the same slot in both environments, or in neither. -/
def AgreeOff (name : String) (env env' : Env) : Prop :=
  ∀ other, other ≠ name → env'.get? other = env.get? other

variable {name : String} {env env' : Env}

/-- To bind one name in both environments keeps them in agreement, the name in question included. -/
theorem AgreeOff.bind (h : env.AgreeOff name env') (other : String) (s : SlotId) :
    (env.bind other s).AgreeOff name (env'.bind other s) := by
  intro n hn
  rw [get?_bind, get?_bind, h n hn]

/-- To bind some names in both environments keeps them in agreement. -/
theorem AgreeOff.bindAll (h : env.AgreeOff name env') (bindings : List (String × SlotId)) :
    (env.bindAll bindings).AgreeOff name (env'.bindAll bindings) := by
  induction bindings generalizing env env' with
  | nil => exact h
  | cons b rest ih => exact ih (h.bind b.1 b.2)

/-- The arguments that are given by name are bound in both environments, or fail in the same way. -/
theorem AgreeOff.bindNamed (h : env.AgreeOff name env') (kwargs : List (String × SlotId)) (params : List String) :
    (∃ fault, Interp.bindNamed kwargs params env = .error fault ∧ Interp.bindNamed kwargs params env' = .error fault) ∨
    ∃ left named named', Interp.bindNamed kwargs params env = .ok (left, named) ∧
      Interp.bindNamed kwargs params env' = .ok (left, named') ∧ named.AgreeOff name named' := by
  induction kwargs generalizing params env env' with
  | nil => exact .inr ⟨params, env, env', rfl, rfl, h⟩
  | cons b rest ih =>
    rw [Interp.bindNamed, Interp.bindNamed]
    by_cases hb : params.contains b.1
    · rw [if_pos hb, if_pos hb]
      exact ih (h.bind b.1 b.2) _
    · rw [if_neg hb, if_neg hb]
      exact .inl ⟨_, rfl, rfl⟩

/-- Bodies start in environments that agree where those of their callers do, or both calls fail in the same way. -/
theorem AgreeOff.callEnv (h : env.AgreeOff name env') (heap : Heap) (f : Func) (args : List SlotId)
    (kwargs : List (String × SlotId)) :
    (∃ fault, Interp.callEnv heap f args kwargs env = .error fault ∧ Interp.callEnv heap f args kwargs env' = .error fault) ∨
    ∃ body body', Interp.callEnv heap f args kwargs env = .ok body ∧ Interp.callEnv heap f args kwargs env' = .ok body' ∧
      body.AgreeOff name body' := by
  unfold Interp.callEnv
  rcases h.bindNamed kwargs f.params with ⟨fault, heq, heq'⟩ | ⟨left, named, named', heq, heq', hnamed⟩
  · rw [heq, heq']
    exact .inl ⟨fault, rfl, rfl⟩
  · rw [heq, heq']
    by_cases hlength : left.length = args.length
    · refine .inr ⟨_, _, if_pos hlength, if_pos hlength, ?_⟩
      exact hnamed.bindAll _
    · exact .inl ⟨_, if_neg hlength, if_neg hlength⟩

/-- The environment with a name unbound. -/
def without (env : Env) (name : String) : Env :=
  ⟨env.bindings.filter fun b => b.1 ≠ name⟩

/-- Only the name itself is unbound. -/
theorem get?_without (env : Env) (name other : String) :
    (env.without name).get? other = if other = name then none else env.get? other := by
  unfold without get?
  dsimp only
  induction env.bindings with
  | nil => simp
  | cons b rest ih =>
    by_cases hb : b.1 = name
    · rw [List.filter_cons_of_neg (by simpa using hb), ih]
      by_cases ho : other = name
      · rw [if_pos ho, if_pos ho]
      · have hne : other ≠ b.1 := by simpa [hb] using ho
        rw [if_neg ho, if_neg ho, List.lookup_cons, beq_false_of_ne hne]
    · rw [List.filter_cons_of_pos (by simpa using hb), List.lookup_cons, List.lookup_cons, ih]
      by_cases ho : other = b.1
      · have hne : other ≠ name := by simpa [ho] using hb
        simp [ho, hb]
      · rw [beq_false_of_ne ho]

/-- An environment agrees with itself where the name is unbound. -/
theorem agreeOff_without (env : Env) (name : String) : (env.without name).AgreeOff name env := by
  intro other hother
  rw [get?_without, if_neg hother]

end Env

/-! ## Steps that ignore a name -/

namespace Exec

variable {α β : Type} {name : String} {x : Exec α} {m : Machine}

/-- From the state `m` and from a state where the name is bound in another way a step does the same, and it leaves the name bound as
it was there. -/
def Ignores (name : String) (x : Exec α) (m : Machine) : Prop :=
  ∀ env, m.env.AgreeOff name env → ∃ env' : Env, (Outcome.state (x m)).env.AgreeOff name env' ∧ env'.get? name = env.get? name ∧
    x { m with env } = Outcome.onState (fun m' => { m' with env := env' }) (x m)

/-- A step that neither looks at the environment nor changes it. -/
def Nameless (x : Exec α) : Prop :=
  ∀ (m : Machine) env, x { m with env } = Outcome.onState (fun m' => { m' with env }) (x m)

namespace Nameless

theorem pure (a : α) : Nameless (Pure.pure a) :=
  fun _ _ => rfl

theorem throw (e : Halt) : Nameless (MonadExcept.throw e : Exec α) :=
  fun _ _ => rfl

theorem fault (f : Fault) : Nameless (fault f : Exec α) :=
  throw _

theorem lift (c : Except Fault α) : Nameless (lift c) := by
  intro m env
  cases c <;> rfl

theorem look (f : Heap → Except Fault α) : Nameless (look f) :=
  fun m env => lift (f m.heap) m env

theorem change (f : Heap → α × Heap) : Nameless (change f) :=
  fun _ _ => rfl

/-- An update of the heap needs no name, if it succeeds and if it fails. -/
theorem update (f : Heap → Except Fault Heap) : Nameless (update f) := by
  intro m env
  unfold Exec.update
  cases f m.heap <;> rfl

theorem read (s : SlotId) : Nameless (read s) :=
  fun _ _ => rfl

/-- Output is written without any name, also where the stream fails. -/
theorem write (text : String) : Nameless (write text) := by
  rintro ⟨_, heap, source, sink, depth⟩ env
  unfold Exec.write
  dsimp only
  rcases sink.write text with ⟨_ | message, sink'⟩ <;> rfl

theorem flush : Nameless flush := by
  intro m env
  unfold Exec.flush
  cases m.sink.flushFault <;> rfl

/-- Input is read without any name, also where the stream fails. -/
theorem readLine : Nameless readLine := by
  intro m env
  unfold Exec.readLine
  cases m.source.line? <;> rfl

/-- One step after another needs no name if neither of them does. -/
theorem bind {f : α → Exec β} (hx : Nameless x) (hf : ∀ a, Nameless (f a)) : Nameless (x >>= f) := by
  intro m env
  rw [bind_apply, bind_apply, hx]
  cases x m with
  | ok a m₁ => exact hf a m₁ env
  | error e m₁ => rfl

/-- The position of a failure has nothing to do with names. -/
theorem located (hx : Nameless x) (span : Option Span) : Nameless (located span x) := by
  intro m env
  unfold Exec.located
  rw [hx]
  rcases x m with ⟨a, m₁⟩ | ⟨_ | _, m₁⟩ <;> rfl

/-- The slot of an element is found in the heap, without any name. -/
theorem elementSlot (target index : Value) : Nameless (Interp.elementSlot target index) := by
  unfold Interp.elementSlot
  cases target with
  | list l => exact look _
  | _ => exact (look _).bind fun part => change _

/-- It leaves the environment as it is. -/
theorem env_eq (hx : Nameless x) (m : Machine) : (Outcome.state (x m)).env = m.env := by
  have h : x m = Outcome.onState (fun m' => { m' with env := m.env }) (x m) := hx m m.env
  rw [h]
  cases x m <;> rfl

end Nameless

namespace Ignores

/-- A step without names ignores each of them. -/
theorem of_nameless (hx : Nameless x) : x.Ignores name m := by
  intro env henv
  refine ⟨env, ?_, rfl, hx m env⟩
  rw [hx.env_eq]
  exact henv

/-- One step after another ignores the name if the first one does, and the second one from where the first one ends. -/
theorem bind {f : α → Exec β} (hx : x.Ignores name m) (hf : ∀ a m₁, x m = .ok a m₁ → (f a).Ignores name m₁) :
    (x >>= f).Ignores name m := by
  intro env henv
  obtain ⟨env₁, hagree₁, hkept₁, heq₁⟩ := hx env henv
  cases hxm : x m with
  | error e m₁ =>
    rw [hxm] at hagree₁ heq₁
    refine ⟨env₁, ?_, hkept₁, ?_⟩
    · rw [bind_of_error hxm]
      exact hagree₁
    · rw [bind_of_error hxm, bind_of_error heq₁]
      rfl
  | ok a m₁ =>
    rw [hxm] at hagree₁ heq₁
    obtain ⟨env₂, hagree₂, hkept₂, heq₂⟩ := hf a m₁ hxm env₁ hagree₁
    refine ⟨env₂, ?_, hkept₂.trans hkept₁, ?_⟩
    · rw [bind_of_ok hxm]
      exact hagree₂
    · rw [bind_of_ok hxm, bind_of_ok heq₁]
      exact heq₂

/-- The position of a failure has nothing to do with the name. -/
theorem located (hx : x.Ignores name m) (span : Option Span) : (located span x).Ignores name m := by
  intro env henv
  obtain ⟨env', hagree, hkept, heq⟩ := hx env henv
  refine ⟨env', ?_, hkept, ?_⟩
  · unfold Exec.located
    rcases hxm : x m with ⟨a, m₁⟩ | ⟨_ | _, m₁⟩ <;>
    · rw [hxm] at hagree
      exact hagree
  · unfold Exec.located
    rw [heq]
    rcases x m with ⟨a, m₁⟩ | ⟨_ | _, m₁⟩ <;> rfl

/-- A look at the state that does not depend on the environment. -/
theorem get {f : Machine → Exec α} (hf : (f m).Ignores name m) (henv : ∀ env, f { m with env } = f m) :
    (MonadState.get >>= f).Ignores name m := by
  intro env hagree
  obtain ⟨env', hafter, hkept, heq⟩ := hf env hagree
  refine ⟨env', hafter, hkept, ?_⟩
  show f { m with env } { m with env } = _
  rw [henv env]
  exact heq

/-- To look up another name ignores the name. -/
theorem slotOf {other : String} (hne : other ≠ name) : (slotOf other).Ignores name m := by
  intro env henv
  unfold Exec.slotOf
  dsimp only
  rw [henv other hne]
  cases m.env.get? other with
  | some s => exact ⟨env, henv, rfl, rfl⟩
  | none => exact ⟨env, henv, rfl, rfl⟩

/-- To bind another name ignores the name. -/
theorem bindName {other : String} (hne : other ≠ name) (s : SlotId) : (Exec.bind other s).Ignores name m := by
  intro env henv
  refine ⟨env.bind other s, henv.bind other s, ?_, rfl⟩
  rw [Env.get?_bind, if_neg hne.symm]

end Ignores

end Exec

/-! ## Nodes and work that do not use a name -/

section

variable {φ : Type} {name : String}

/-- The names that a node itself looks up or binds: that of a variable, of the target of an assignment, of the variable of a loop. -/
def Node.names : Node φ → List String
  | .expr (.getVar _ name) | .stmt (.setVar _ name _) | .stmt (.loop _ name _ _) => [name]
  | _ => []

/-- No node in a tree uses the name, those in function bodies included. The parameters of functions and the names of arguments do
not count: they bind a name for the body of a function only. -/
def Node.Avoids (name : String) (n : Node φ) : Prop :=
  ∀ x, n.Contains x → name ∉ x.names

/-- No instruction of a block, and no node inside one, uses the name. -/
def Block.Avoids (name : String) (code : Block φ) : Prop :=
  ∀ s ∈ code, (Node.stmt s).Avoids name

/-- A child of a node that does not use the name does not use it either. -/
theorem Node.Avoids.child {n c : Node φ} (h : n.Avoids name) (hc : c ∈ n.children) : c.Avoids name :=
  fun x hx => h x (.inside hc hx)

/-- A node avoids the name when it does not use it itself and its children avoid it. -/
theorem Node.avoids_iff {n : Node φ} : n.Avoids name ↔ name ∉ n.names ∧ ∀ c ∈ n.children, c.Avoids name := by
  refine ⟨fun h => ⟨h n (.self n), fun c hc => h.child hc⟩, fun h x hx => ?_⟩
  cases hx with
  | self => exact h.1
  | inside hc hx => exact h.2 _ hc x hx

/-- An expression avoids the name when it does not use it itself and its children avoid it. -/
theorem Node.avoids_expr {e : Expr φ} :
    (Node.expr e).Avoids name ↔ name ∉ (Node.expr e).names ∧ ∀ c ∈ (Node.expr e).children, c.Avoids name :=
  Node.avoids_iff

/-- An instruction avoids the name when it does not use it itself and its children avoid it. -/
theorem Node.avoids_stmt {s : Stmt φ} :
    (Node.stmt s).Avoids name ↔ name ∉ (Node.stmt s).names ∧ ∀ c ∈ (Node.stmt s).children, c.Avoids name :=
  Node.avoids_iff

end

/-- The names that a piece of work itself looks up or binds. A compound assignment looks up its target itself. -/
def Work.names : Work → List String
  | .value e | .slot e => (Node.expr e).names
  | .stmt (.compound _ _ target _) => (Node.expr target).names
  | .stmt s => (Node.stmt s).names
  | .pass var _ _ => [var]
  | _ => []

/-! ## Interpreters -/

/-- An interpreter ignores a name in work with a property. -/
structure Interp.Ignores (P : Work → Machine → Prop) (name : String) (r : Interp) : Prop where
  expr : ∀ {e m}, P (.value e) m → (r.expr e).Ignores name m
  slot : ∀ {e m}, P (.slot e) m → (r.slot e).Ignores name m
  stmt : ∀ {s m}, P (.stmt s) m → (r.stmt s).Ignores name m

/-- A property of work that goes over to the work it leads to, and that work which uses the name does not have. -/
structure Unused (limit : Nat) (r : Interp) (name : String) (P : Work → Machine → Prop) : Prop where
  inherited : Inherited limit r P
  unused : ∀ {w m}, P w m → name ∉ w.names

namespace Interp.Ignores

open Exec

variable {limit : Nat} {r : Interp} {name : String} {P : Work → Machine → Prop} {m : Machine}

/-! ### Sequences of nodes -/

/-- The slots of positional arguments, one after another. -/
theorem slots (h : r.Ignores P name) (hP : Unused limit r name P) {es : List (Expr FuncId)} (hw : P (.slots es) m) :
    (r.slots es).Ignores name m := by
  induction es generalizing m with
  | nil => exact .of_nameless (.pure _)
  | cons e rest ih =>
    refine (h.slot (hP.inherited hw .slotsHead)).bind fun s m₁ hs => ?_
    exact (ih (hP.inherited hw (.slotsTail hs))).bind fun _ _ _ => .of_nameless (.pure _)

/-- The slots of named arguments, one after another. -/
theorem namedSlots (h : r.Ignores P name) (hP : Unused limit r name P) {es : List (String × Expr FuncId)} (hw : P (.named es) m) :
    (r.namedSlots es).Ignores name m := by
  induction es generalizing m with
  | nil => exact .of_nameless (.pure _)
  | cons e rest ih =>
    refine (h.slot (hP.inherited hw .namedHead)).bind fun s m₁ hs => ?_
    exact (ih (hP.inherited hw (.namedTail hs))).bind fun _ _ _ => .of_nameless (.pure _)

/-- A block ignores the name, one instruction after the other; it may stop at one that returns. -/
theorem block (h : r.Ignores P name) (hP : Unused limit r name P) {code : Block FuncId} (hw : P (.block code) m) :
    (r.block code).Ignores name m := by
  induction code generalizing m with
  | nil => exact .of_nameless (.pure _)
  | cons s rest ih =>
    refine (h.stmt (hP.inherited hw .blockHead)).bind fun flow m₁ hs => ?_
    cases flow with
    | returned s => exact .of_nameless (.pure _)
    | completed => exact ih (hP.inherited hw (.blockTail hs))

/-! ### Calls -/

/-- A body that ignores the name does the same in environments that agree on the others, and leaves that of the caller. -/
theorem runBody {f : Func} {body body' : Env} (hbody : body.AgreeOff name body')
    (hcode : (r.block f.code).Ignores name { m with env := body, depth := m.depth + 1 }) (env : Env) :
    r.runBody f body' { m with env } = Outcome.onState (fun m' => { m' with env }) (r.runBody f body m) := by
  obtain ⟨env', -, -, heq⟩ := hcode body' hbody
  have henter : Interp.enter body' (r.block f.code) { m with env } =
      Outcome.onState (fun m' => { m' with env }) (Interp.enter body (r.block f.code) m) := by
    rw [Interp.enter_apply, Interp.enter_apply]
    show Outcome.leave _ (r.block f.code { m with env := body', depth := m.depth + 1 }) = _
    rw [heq]
    cases r.block f.code { m with env := body, depth := m.depth + 1 } <;> rfl
  unfold Interp.runBody
  rw [bind_apply, bind_apply, henter]
  rcases Interp.enter body (r.block f.code) m with ⟨_ | s, m₁⟩ | ⟨e, m₁⟩ <;> rfl

/-- Whatever a body binds, its caller has its own environment back. -/
theorem runBody_env (r : Interp) (f : Func) (body : Env) (m : Machine) : (Outcome.state (r.runBody f body m)).env = m.env := by
  unfold Interp.runBody
  rw [bind_apply, Interp.enter_apply]
  rcases r.block f.code { m with env := body, depth := m.depth + 1 } with ⟨_ | s, m₁⟩ | ⟨e, m₁⟩ <;> rfl

/-- A call ignores the name: it binds the parameters in both environments, or fails to do so in both. -/
theorem invoke (h : r.Ignores P name) (hP : Unused limit r name P) {f : Func} {args : List SlotId}
    {kwargs : List (String × SlotId)} (hw : P (.invoke f args kwargs) m) : (Interp.invoke limit r f args kwargs).Ignores name m := by
  intro env henv
  by_cases hdepth : m.depth < limit
  · rw [invoke_of_depth_lt hdepth, invoke_of_depth_lt (m := { m with env }) hdepth]
    rcases henv.callEnv m.heap f args kwargs with ⟨fault, heq, heq'⟩ | ⟨body, body', heq, heq', hbody⟩
    · simp only [heq, heq']
      exact ⟨env, henv, rfl, rfl⟩
    · simp only [heq, heq']
      refine ⟨env, ?_, rfl, runBody hbody (h.block hP (hP.inherited hw (.body hdepth heq))) env⟩
      rw [runBody_env]
      exact henv
  · have hfull (m₁ : Machine) (hm₁ : m₁.depth = m.depth) :
        Interp.invoke limit r f args kwargs m₁ = .error (.failed ⟨.callDepth limit, none⟩) m₁ := by
      show (if limit ≤ m₁.depth then _ else _ : Exec SlotId) m₁ = _
      rw [if_pos (by omega)]
      rfl
    rw [hfull m rfl, hfull { m with env } rfl]
    exact ⟨env, henv, rfl, rfl⟩

/-- A call with its target and its arguments ignores the name. -/
theorem call (h : r.Ignores P name) (hP : Unused limit r name P) {target : Expr FuncId} {args : List (Expr FuncId)}
    {kwargs : List (String × Expr FuncId)} (hw : P (.call target args kwargs) m) :
    (Interp.call limit r target args kwargs).Ignores name m := by
  refine (h.expr (hP.inherited hw .callTarget)).bind fun v m₁ hv => ?_
  cases v with
  | func f =>
    refine (h.slots hP (hP.inherited hw (.callArgs hv))).bind fun slots m₂ ha => ?_
    refine (h.namedSlots hP (hP.inherited hw (.callNamed hv ha))).bind fun named m₃ hk => ?_
    exact h.invoke hP (hP.inherited hw (.callInvoke hv ha hk))
  | _ => exact .of_nameless (.fault _)

/-! ### Expressions -/

/-- The first of some values that are evaluated in order. -/
theorem head (h : r.Ignores P name) (hP : Unused limit r name P) {e : Expr FuncId} {es : List (Expr FuncId)}
    (hw : P (.values (e :: es)) m) : (r.expr e).Ignores name m :=
  h.expr (hP.inherited hw .valuesHead)

/-- To read a line of input ignores the name if the prompt does. -/
theorem input (h : r.Ignores P name) (hP : Unused limit r name P) {prompt : Option (Expr FuncId)} (hw : P (.values prompt.toList) m) :
    (r.input prompt).Ignores name m := by
  have hread : Nameless (do Exec.flush; let line ← Exec.readLine; return Value.string line) :=
    Nameless.flush.bind fun _ => Nameless.readLine.bind fun _ => .pure _
  cases prompt with
  | none => exact .of_nameless hread
  | some e =>
    refine (h.head hP hw).bind fun v _ _ => .of_nameless ?_
    exact (Nameless.lift _).bind fun text => (Nameless.write text).bind fun _ => hread

/-- The value of an expression, whichever way the expression is evaluated. -/
theorem exprForm (h : r.Ignores P name) (hP : Unused limit r name P) {w : Work} {e : Expr FuncId} (he : w.Evaluates e) (hw : P w m) :
    (Interp.exprForm limit r e).Ignores name m := by
  have hoperands : P (.values e.operands) m := hP.inherited hw (.operands he)
  cases e with
  | literal | func => exact .of_nameless (.pure _)
  | getVar _ other =>
    have hne : other ≠ name := by
      have hunused := hP.unused hw
      cases w with
      | value | slot =>
        cases he
        simpa [Work.names, Node.names, eq_comm] using hunused
      | _ => cases he
    exact (Exec.Ignores.slotOf hne).bind fun s _ _ => .of_nameless (.read s)
  | convert | len => exact (h.head hP hoperands).bind fun v _ _ => .of_nameless (.look _)
  | not => exact (h.head hP hoperands).bind fun v _ _ => .of_nameless (.lift _)
  | typeOf => exact (h.head hP hoperands).bind fun _ _ _ => .of_nameless (.pure _)
  | range =>
    refine (h.head hP hoperands).bind fun a m₁ ha => ?_
    exact (h.head hP (hP.inherited hoperands (.valuesTail ha))).bind fun _ _ _ => .of_nameless (.pure _)
  | binary | subscript | join =>
    refine (h.head hP hoperands).bind fun a m₁ ha => ?_
    exact (h.head hP (hP.inherited hoperands (.valuesTail ha))).bind fun _ _ _ => .of_nameless (.look _)
  | list _ items =>
    refine (h.slots hP (hP.inherited hw (.items he))).bind fun slots _ _ => .of_nameless ?_
    exact (Nameless.change _).bind fun l => .pure _
  | input _ prompt => exact h.input hP hoperands
  | call _ target args kwargs => exact (h.call hP (hP.inherited hw (.call he))).bind fun s _ _ => .of_nameless (.read s)

/-- The slot of an expression: a variable is looked up by another name, and all else is evaluated. -/
theorem nextSlot (h : r.Ignores P name) (hP : Unused limit r name P) {e : Expr FuncId} (hw : P (.slot e) m) :
    (Interp.nextSlot limit r e).Ignores name m := by
  have hform := (h.exprForm hP (w := .slot e) rfl hw).located e.span
  cases e with
  | getVar span other =>
    have hne : other ≠ name := by simpa [Work.names, Node.names, eq_comm] using hP.unused hw
    exact (Exec.Ignores.slotOf hne).located span
  | subscript span target index =>
    have hoperands := hP.inherited hw (.operands rfl)
    refine (h.head hP hoperands).bind fun v m₁ hv => ?_
    refine (h.head hP (hP.inherited hoperands (.valuesTail hv))).bind fun i _ _ => .of_nameless ?_
    exact (Nameless.elementSlot v i).located span
  | call span target args kwargs => exact (h.call hP (hP.inherited hw (.call rfl))).located span
  | _ => exact hform.bind fun v _ _ => .of_nameless (.change _)

/-! ### Instructions -/

theorem test (h : r.Ignores P name) {e : Expr FuncId} (hw : P (.value e) m) : (r.test e).Ignores name m :=
  (h.expr hw).bind fun _ _ _ => .of_nameless ((Nameless.look _).located e.span)

/-- A switch ignores the name in its tests up to the one that holds, and in the block behind it. -/
theorem switch (h : r.Ignores P name) (hP : Unused limit r name P) {default : Option (Block FuncId)}
    {cases : List (Expr FuncId × Block FuncId)} (hw : P (.cases cases default) m) : (r.switch default cases).Ignores name m := by
  induction cases generalizing m with
  | nil =>
    cases default with
    | none => exact .of_nameless (.pure _)
    | some code => exact h.block hP (hP.inherited hw .casesDefault)
  | cons c rest ih =>
    refine (h.test (hP.inherited hw .casesTest)).bind fun holds m₁ htest => ?_
    cases holds with
    | true => exact h.block hP (hP.inherited hw (.casesCode htest))
    | false => exact ih (hP.inherited hw (.casesNext htest))

/-- The target of a compound assignment is another variable, an element of a list, or nothing that could be changed. -/
theorem targetSlot (h : r.Ignores P name) (hP : Unused limit r name P) {span : Option Span} {op : ArithOp}
    {target value : Expr FuncId} (hw : P (.stmt (.compound span op target value)) m) : (r.targetSlot target).Ignores name m := by
  cases target with
  | getVar span other =>
    have hne : other ≠ name := by simpa [Work.names, Node.names, eq_comm] using hP.unused hw
    exact (Exec.Ignores.slotOf hne).located span
  | subscript span container index =>
    refine (h.expr (hP.inherited hw .compoundContainer)).bind fun v m₁ hv => ?_
    cases v with
    | list l =>
      refine (h.expr (hP.inherited hw (.compoundIndex hv))).bind fun i _ _ => .of_nameless ?_
      exact (Nameless.lift _).bind fun i => (Nameless.look _).located span
    | _ => exact .of_nameless ((Nameless.fault _).located span)
  | _ => exact .of_nameless (x := Exec.located _ (Exec.fault _)) ((Nameless.fault _).located _)

/-- A loop ignores the name: its variable is another one, and each round leaves work of the same kind. -/
theorem loop (h : r.Ignores P name) (hP : Unused limit r name P) {var : String} {code : Block FuncId} (fuel : Nat) {cursor : Cursor}
    (hw : P (.pass var code cursor) m) : (r.loop var code fuel cursor).Ignores name m := by
  have hne : var ≠ name := by simpa [Work.names, eq_comm] using hP.unused hw
  induction fuel generalizing cursor m with
  | zero => exact .of_nameless (.throw _)
  | succ fuel ih =>
    rcases hn : cursor.next? m.heap with ⟨_ | ⟨s, next⟩, heap⟩
    · intro env henv
      rw [Interp.loop_of_next?_none hn, Interp.loop_of_next?_none (m := { m with env }) hn]
      exact ⟨env, henv, rfl, rfl⟩
    · have hround : (r.block code >>= r.afterRound var code fuel next).Ignores name { m with heap, env := m.env.bind var s } := by
        refine (h.block hP (hP.inherited hw (.passBody hn))).bind fun flow m₁ hb => ?_
        cases flow with
        | returned s => exact .of_nameless (.pure _)
        | completed => exact ih (hP.inherited hw (.passNext hn hb))
      intro env henv
      obtain ⟨env', hagree, hkept, heq⟩ := hround (env.bind var s) (henv.bind var s)
      rw [Env.get?_bind, if_neg hne.symm] at hkept
      rw [Interp.loop_of_next? hn, Interp.loop_of_next? (m := { m with env }) hn]
      exact ⟨env', hagree, hkept, heq⟩

/-- All forms of instructions ignore the name where the work at hand does not use it. -/
theorem stmtForm (h : r.Ignores P name) (hP : Unused limit r name P) (fuel : Nat) {s : Stmt FuncId} (hw : P (.stmt s) m) :
    (Interp.stmtForm fuel r s).Ignores name m := by
  have hoperands : P (.values s.operands) m := hP.inherited hw .stmtOperands
  have hstored {e : Expr FuncId} {m₁ : Machine} {vs : List Value} (he : s.stored = some e)
      (hret : ∀ span value, s = .ret span value → m.depth ≠ 0) (ho : r.values s.operands m = .ok vs m₁) :
      (r.slot e).Ignores name m₁ := h.slot (hP.inherited hw (.stmtStored he hret ho))
  cases s with
  | setVar _ other value =>
    have hne : other ≠ name := by simpa [Work.names, Node.names, eq_comm] using hP.unused hw
    refine (hstored rfl nofun rfl).bind fun s m₁ _ => ?_
    exact (Exec.Ignores.bindName hne s).bind fun _ _ _ => .of_nameless (.pure _)
  | compound span op target value =>
    refine Exec.Ignores.bind ?_ fun _ _ _ => .of_nameless (.pure _)
    refine (h.targetSlot hP hw).bind fun s m₁ hs => ?_
    refine (h.expr (hP.inherited hw (.compoundValue hs))).bind fun b _ _ => .of_nameless ?_
    exact (Nameless.read s).bind fun a => (Nameless.look _).bind fun v => .change _
  | append _ target value =>
    refine (h.head hP hoperands).bind fun v m₁ hv => ?_
    refine (hstored rfl nofun (Interp.values_cons hv rfl)).bind fun s _ _ => .of_nameless ?_
    exact (Nameless.lift _).bind fun l => (Nameless.change _).bind fun _ => .pure _
  | insert _ target index value =>
    refine (h.head hP hoperands).bind fun v m₁ hv => ?_
    refine (h.head hP (hP.inherited hoperands (.valuesTail hv))).bind fun i m₂ hi => ?_
    have hvalues : r.values [target, index] m = .ok [v, i] m₂ := Interp.values_cons hv (Interp.values_cons hi rfl)
    refine (hstored rfl nofun hvalues).bind fun s _ _ => .of_nameless ?_
    exact (Nameless.update _).bind fun _ => .pure _
  | remove _ target index =>
    refine (h.head hP hoperands).bind fun v m₁ hv => ?_
    refine (h.head hP (hP.inherited hoperands (.valuesTail hv))).bind fun i _ _ => .of_nameless ?_
    exact (Nameless.update _).bind fun _ => .pure _
  | print _ value =>
    refine (h.head hP hoperands).bind fun v _ _ => .of_nameless ?_
    exact (Nameless.look _).bind fun text => (Nameless.write _).bind fun _ => .pure _
  | cond _ cond code otherwise =>
    refine (h.test (hP.inherited hoperands .valuesHead)).bind fun holds m₁ htest => ?_
    cases holds with
    | true => exact h.block hP (hP.inherited hw (.condCode htest))
    | false =>
      cases otherwise with
      | none => exact .of_nameless (.pure _)
      | some other => exact h.block hP (hP.inherited hw (.condElse htest))
  | switch _ cases default => exact h.switch hP (hP.inherited hw .switch)
  | loop _ var list code =>
    refine (h.head hP hoperands).bind fun v m₁ hv => ?_
    refine (Exec.Ignores.of_nameless (.lift _)).bind fun cursor m₂ hlift => ?_
    obtain ⟨hcursor, rfl⟩ := Exec.lift_eq_ok hlift
    exact h.loop hP fuel (hP.inherited hw (.loop hv hcursor))
  | ret span value =>
    refine Exec.Ignores.get ?_ fun _ => rfl
    by_cases hdepth : m.depth = 0
    · rw [if_pos hdepth]
      exact .of_nameless (.fault _)
    · rw [if_neg hdepth]
      cases value with
      | none => exact .of_nameless ((Nameless.change _).bind fun s => .pure _)
      | some e => exact (hstored rfl (fun _ _ _ => hdepth) rfl).bind fun s _ _ => .of_nameless (.pure _)
  | expr _ value => exact (h.head hP hoperands).bind fun _ _ _ => .of_nameless (.pure _)

/-- What ignores the name at one level does so at the next. -/
theorem next (h : r.Ignores P name) (hP : Unused limit r name P) (fuel : Nat) : (Interp.next limit fuel r).Ignores P name where
  expr {e _} hw := (h.exprForm hP (w := .value e) rfl hw).located e.span
  slot hw := h.nextSlot hP hw
  stmt {s _} hw := (h.stmtForm hP fuel hw).located s.span

end Interp.Ignores

/-- Every interpreter ignores the name in work that does not use it; by induction on the levels. -/
theorem interp_ignores {limit : Nat} {name : String} {P : Work → Machine → Prop}
    (hP : ∀ fuel, Unused limit (interp limit fuel) name P) (fuel : Nat) : (interp limit fuel).Ignores P name := by
  induction fuel with
  | zero => exact ⟨fun _ => .of_nameless (.throw _), fun _ => .of_nameless (.throw _), fun _ => .of_nameless (.throw _)⟩
  | succ fuel ih => exact ih.next (hP fuel) fuel

/-! ## Work under a regime of nodes without the name -/

/-- Work that a run from the state `m` comes to if neither its code nor the functions that the state holds use the name. -/
def Machine.Spares (m : Machine) (name : String) (w : Work) (m₁ : Machine) : Prop :=
  (m.regime (Node.Avoids name)).Ready m₁ ∧ (m.regime (Node.Avoids name)).Permits m₁.heap w ∧ name ∉ w.names

section

variable {name : String} {m : Machine}

/-- Work under a regime of nodes without the name does not use it, if the variable of a loop under way is another one. -/
theorem not_mem_names_of_permits {h : Heap} {w : Work} (hw : (m.regime (Node.Avoids name)).Permits h w)
    (hpass : ∀ var code cursor, w = .pass var code cursor → name ≠ var) : name ∉ w.names := by
  cases w with
  | value e | slot e => exact hw _ (.self _)
  | stmt s =>
    cases s with
    | compound => exact hw _ (.inside (.head _) (.self _))
    | _ => exact hw _ (.self _)
  | pass var code cursor => simpa [Work.names] using hpass var code cursor rfl
  | _ => simp [Work.names]

/-- What a run comes to does not use a name that neither its code nor the functions of its state use. -/
theorem unused_spares (m : Machine) (name : String) (limit fuel : Nat) :
    Unused limit (interp limit fuel) name (m.Spares name) where
  inherited hw hl := by
    have hlawful : (m.regime (Node.Avoids name)).Lawful := m.regime_lawful Node.Avoids.child
    obtain ⟨hlater, hpermits⟩ := (interp_obeys hlawful limit fuel).leads hlawful hl hw.1 hw.2.1
    refine ⟨hlater.ready, hpermits, not_mem_names_of_permits hpermits ?_⟩
    -- Only a loop, and a round of it before, lead to a round of it.
    rintro var code cursor rfl
    have hunused := hw.2.2
    cases hl with
    | loop | passNext => simpa [Work.names, Node.names] using hunused
  unused hw := hw.2.2

end

/-! ## States that agree except on a name -/

/-- The states are the same, except for what the name is bound to. -/
structure Machine.AgreeOff (name : String) (m m' : Machine) : Prop where
  env : m.env.AgreeOff name m'.env
  heap : m'.heap = m.heap
  source : m'.source = m.source
  sink : m'.sink = m.sink
  depth : m'.depth = m.depth

/-- A state that agrees with another one is that one, with its own environment. -/
theorem Machine.AgreeOff.eq {name : String} {m m' : Machine} (h : m.AgreeOff name m') : m' = { m with env := m'.env } := by
  obtain ⟨env, heap, source, sink, depth⟩ := m
  obtain ⟨env', heap', source', sink', depth'⟩ := m'
  obtain ⟨-, rfl, rfl, rfl, rfl⟩ := h
  rfl

/-- A block ignores a name that neither it nor a function that the state holds uses. -/
theorem block_ignores {name : String} {code : Block FuncId} {m : Machine} (hcode : Block.Avoids name code)
    (hfunc : ∀ f, m.Holds (.func f) → Block.Avoids name f.code) (limit fuel : Nat) :
    ((interp limit fuel).block code).Ignores name m := by
  have hready : (m.regime (Node.Avoids name)).Ready m := Machine.ready_regime hfunc
  have hspares : m.Spares name (.block code) m := ⟨hready, hcode, List.not_mem_nil⟩
  exact (interp_ignores (unused_spares m name limit) fuel).block (unused_spares m name limit fuel) hspares

/-- A name that is not mentioned does not matter. Take two states that differ only in what the name is bound to, and a block that
does not use the name, in a state where no function uses it that is reached from the other names. Executed from the two states, the
block ends in the same way, with the same heap, the same output and the same input left, and the environments agree except on the
name, which is bound in each as it was before. -/
theorem unmentioned_name (limit fuel : Nat) (name : String) (code : Block FuncId) (m m' : Machine) (hagree : m.AgreeOff name m')
    (hcode : Block.Avoids name code)
    (hfunc : ∀ other s f, other ≠ name → m.env.get? other = some s → m.heap.Inside (m.heap.get s) (.func f) →
      Block.Avoids name f.code) :
    ∃ result m₁ m₁', Outcome.pair ((interp limit fuel).block code m) = (result, m₁) ∧
      Outcome.pair ((interp limit fuel).block code m') = (result, m₁') ∧ m₁.AgreeOff name m₁' ∧
      m₁.env.get? name = m.env.get? name ∧ m₁'.env.get? name = m'.env.get? name := by
  -- Both runs are compared with the one from the state where the name is unbound.
  have hignores : ((interp limit fuel).block code).Ignores name { m with env := m.env.without name } := by
    refine block_ignores hcode ?_ limit fuel
    rintro f ⟨other, s, hs, hin⟩
    rw [Env.get?_without] at hs
    split at hs
    · cases hs
    · exact hfunc other s f ‹_› hs hin
  have hwithout : (m.env.without name).AgreeOff name m.env := m.env.agreeOff_without name
  have hwithout' : (m.env.without name).AgreeOff name m'.env := fun n hn => (hagree.env n hn).trans (hwithout n hn)
  obtain ⟨env, henv, hkept, heq⟩ := hignores m.env hwithout
  obtain ⟨env', henv', hkept', heq'⟩ := hignores m'.env hwithout'
  have hrun' : (interp limit fuel).block code m' = Outcome.onState (fun m₁ => { m₁ with env := env' })
      ((interp limit fuel).block code { m with env := m.env.without name }) := by
    rw [hagree.eq]
    exact heq'
  have hpair := (congrArg Outcome.pair heq).trans (Outcome.pair_onState _ _)
  have hpair' := (congrArg Outcome.pair hrun').trans (Outcome.pair_onState _ _)
  refine ⟨_, _, _, hpair, hpair', ⟨fun n hn => ?_, rfl, rfl, rfl, rfl⟩, hkept, hkept'⟩
  exact (henv' n hn).trans (henv n hn).symm

/-- A name is bound in one of the states only. The function that is called sees it in its environment, appends to a list, and
leaves it alone. -/
theorem sharing_unmentioned_name :
    ∃ result m₁ m₁', Outcome.pair ((interp 10 9).block (callingF ++ [.setVar none "y" (.getVar none "x")]) (sharing appendingX)) =
        (result, m₁) ∧
      Outcome.pair ((interp 10 9).block (callingF ++ [.setVar none "y" (.getVar none "x")])
        { sharing appendingX with env := (sharing appendingX).env.bind "n" 1 }) = (result, m₁') ∧
      m₁.AgreeOff "n" m₁' ∧ m₁.env.get? "n" = none ∧ m₁'.env.get? "n" = some 1 := by
  refine unmentioned_name 10 9 "n" _ (sharing appendingX) _ ⟨fun n hn => ?_, rfl, rfl, rfl, rfl⟩ ?_ ?_
  · rw [Env.get?_bind, if_neg hn]
  · simp [Block.Avoids, callingF, Node.avoids_expr, Node.avoids_stmt, Node.children, Node.names]
  · intro other s f _ hs hin
    rw [holds_func_sharing ⟨other, s, hs, hin⟩]
    simp [Block.Avoids, appendingX, Node.avoids_expr, Node.avoids_stmt, Node.children, Node.names]

end NodeScript
