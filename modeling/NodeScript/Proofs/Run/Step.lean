import NodeScript.Run.Interp

/-!
# Properties of steps

An interpreter is put together from steps in a few ways: one step after another, a step that looks at the state first, a step
in an environment of its own. A property of steps that all these ways keep (`StepRule`) holds of the interpreter of one level
more where it holds of the interpreter below (`StepRule.Holds.next`), and so of every interpreter (`StepRule.interp_holds`). Such a
rule keeps apart the steps that evaluate and those that execute instructions, which bind the names that are assigned to in them
outside function bodies (`Stmt.assigned`). Interpreters that differ only in how they read input go through the same steps in all
else, so what is put together is followed through for a family of them at once (`FamilyRule`); one interpreter is a family of one.
-/

namespace NodeScript

/-! ## Names that instructions assign to -/

section

variable {φ : Type}

mutual

/-- The names that an instruction may bind: the targets of its assignments and the variables of its loops, those inside
function bodies left out. -/
def Stmt.assigned : Stmt φ → List String
  | .setVar _ name _ => [name]
  | .cond _ _ code otherwise => Stmt.assignedAll code ++ Stmt.assignedOption otherwise
  | .switch _ cases default => Stmt.assignedCases cases ++ Stmt.assignedOption default
  | .loop _ var _ code => var :: Stmt.assignedAll code
  | _ => []

/-- The names that a block may bind. -/
def Stmt.assignedAll : List (Stmt φ) → List String
  | [] => []
  | stmt :: rest => stmt.assigned ++ Stmt.assignedAll rest

/-- The names that the cases of a switch may bind. -/
def Stmt.assignedCases : List (Expr φ × List (Stmt φ)) → List String
  | [] => []
  | (_, code) :: rest => Stmt.assignedAll code ++ Stmt.assignedCases rest

/-- The names that a block may bind that may be missing. -/
def Stmt.assignedOption : Option (List (Stmt φ)) → List String
  | none => []
  | some code => Stmt.assignedAll code

end

end

namespace Exec

variable {α β : Type}

/-- A step after another: it goes on from where the first one ended, unless that one halted. -/
theorem bind_apply (x : Exec α) (f : α → Exec β) (m : Machine) :
    (x >>= f) m = match x m with
      | .ok a m' => f a m'
      | .error e m' => .error e m' := by
  show EStateM.bind x f m = _
  unfold EStateM.bind
  cases x m <;> rfl

section

variable {x : Exec α} {m m' : Machine}

/-- After a step with a result the next one starts where it ended. -/
theorem bind_of_ok {a : α} (h : x m = .ok a m') (f : α → Exec β) : (x >>= f) m = f a m' := by
  rw [bind_apply, h]

/-- After a step that halted there is no next one. -/
theorem bind_of_error {e : Halt} (h : x m = .error e m') (f : α → Exec β) : (x >>= f) m = .error e m' := by
  rw [bind_apply, h]

/-- A calculation with a result leaves the machine as it is. -/
theorem lift_of_ok {c : Except Fault α} {a : α} (h : c = .ok a) (m : Machine) : lift c m = .ok a m := by
  rw [h]
  rfl

/-- An update that succeeds changes the heap only. -/
theorem update_of_ok {f : Heap → Except Fault Heap} {heap : Heap} (h : f m.heap = .ok heap) :
    update f m = .ok () { m with heap } := by
  simp only [update, h]

/-- An update that fails changes nothing. -/
theorem update_of_error {f : Heap → Except Fault Heap} {e : Fault} (h : f m.heap = .error e) :
    update f m = .error (.failed ⟨e, none⟩) m := by
  simp only [update, h]
  rfl

/-- A position does not matter to a step that has a result. -/
theorem located_of_ok {a : α} (h : x m = .ok a m') (span : Option Span) : located span x m = .ok a m' := by
  unfold located
  rw [h]

/-- A failure leaves a node with the position of the node, unless it has one already. -/
theorem located_of_failed {f : Failure} (h : x m = .error (.failed f) m') (span : Option Span) :
    located span x m = .error (.failed (f.located span)) m' := by
  unfold located
  rw [h]

/-- A step after another has a result if both have one. -/
theorem bind_eq_ok {f : α → Exec β} {b : β} (h : (x >>= f) m = .ok b m') : ∃ a m₁, x m = .ok a m₁ ∧ f a m₁ = .ok b m' := by
  rw [bind_apply] at h
  cases hx : x m with
  | ok a m₁ =>
    rw [hx] at h
    exact ⟨a, m₁, rfl, h⟩
  | error e m₁ =>
    rw [hx] at h
    cases h

/-- The result of a lifted calculation is the result of the calculation. -/
theorem lift_eq_ok {c : Except Fault α} {a : α} (h : lift c m = .ok a m') : c = .ok a ∧ m' = m := by
  cases c with
  | ok a' =>
    cases h
    exact ⟨rfl, rfl⟩
  | error f => cases h

/-- A result inside a node is the result of what is inside. -/
theorem located_eq_ok {span : Option Span} {a : α} (h : located span x m = .ok a m') : x m = .ok a m' := by
  unfold located at h
  split at h
  · cases h
  · exact h

/-- A name that is found is bound to the slot. -/
theorem slotOf_eq_ok {name : String} {s : SlotId} (h : slotOf name m = .ok s m') : m.env.get? name = some s ∧ m' = m := by
  unfold slotOf at h
  split at h
  · cases h
    exact ⟨‹_›, rfl⟩
  · cases h

/-- An update with a result has put a new heap in the place of the old one. -/
theorem update_eq_ok {f : Heap → Except Fault Heap} {u : Unit} (h : update f m = .ok u m') :
    ∃ heap, f m.heap = .ok heap ∧ m' = { m with heap } := by
  unfold update at h
  split at h
  · cases h
    exact ⟨_, ‹_›, rfl⟩
  · cases h

end

end Exec

namespace Interp

/-! ## Loops, round by round -/

/-- What a loop does after a round: it ends if the body returned, and else it goes on. -/
def afterRound (r : Interp) (var : String) (code : Block FuncId) (fuel : Nat) (cursor : Cursor) : Flow → Exec Flow
  | .returned s => pure (.returned s)
  | .completed => r.loop var code fuel cursor

/-- A loop ends when there is no item left. -/
theorem loop_of_next?_none {r : Interp} {var : String} {code : Block FuncId} {fuel : Nat} {cursor : Cursor} {m : Machine}
    {heap : Heap} (h : cursor.next? m.heap = (none, heap)) :
    r.loop var code (fuel + 1) cursor m = .ok .completed { m with heap } := by
  rw [loop, Exec.bind_apply]
  simp only [Exec.change, h]
  rfl

/-- A loop with an item left binds it, runs its body and goes on from there. -/
theorem loop_of_next? {r : Interp} {var : String} {code : Block FuncId} {fuel : Nat} {cursor cursor' : Cursor} {m : Machine}
    {s : SlotId} {heap : Heap} (h : cursor.next? m.heap = (some (s, cursor'), heap)) :
    r.loop var code (fuel + 1) cursor m =
      (r.block code >>= r.afterRound var code fuel cursor') { m with heap, env := m.env.bind var s } := by
  rw [loop, Exec.bind_apply]
  simp only [Exec.change, h]
  rfl

end Interp

/-! ## Rules -/

/-- A property of families of steps that all ways to put steps together keep, where these are the same in all members: `eval` for
steps that evaluate, and `exec names` for steps that execute instructions and may bind the names. Steps that read input are left
out. -/
structure FamilyRule (ι : Type) where
  eval : ∀ {α : Type}, (ι → Exec α) → Prop
  exec : ∀ {α : Type}, List String → (ι → Exec α) → Prop
  pure : ∀ {α : Type} (a : α), eval fun _ => Pure.pure a
  halt : ∀ {α : Type} (e : Halt), eval fun _ => (throw e : Exec α)
  bind : ∀ {α β : Type} {x : ι → Exec α} {f : ι → α → Exec β}, eval x → (∀ a, eval fun i => f i a) → eval fun i => x i >>= f i
  located : ∀ {α : Type} {x : ι → Exec α} (span : Option Span), eval x → eval fun i => Exec.located span (x i)
  /-- Steps that look at the state, except for the input and the output, before they go on as other steps. -/
  looking : ∀ {α : Type} {x : ι → Exec α},
    (∀ m : Machine, ∃ y : ι → Exec α, eval y ∧ ∀ i source sink, x i { m with source, sink } = y i { m with source, sink }) →
    eval x
  change : ∀ {α : Type} (f : Heap → α × Heap), eval fun _ => Exec.change f
  write : ∀ text, eval fun _ => Exec.write text
  flush : eval fun _ => Exec.flush
  /-- Steps in an environment of their own may bind there what they like. -/
  enter : ∀ {α : Type} {names : List String} {x : ι → Exec α} (env : Env), exec names x → eval fun i => Interp.enter env (x i)
  exec_of_eval : ∀ {α : Type} {x : ι → Exec α} (names : List String), eval x → exec names x
  exec_mono : ∀ {α : Type} {names names' : List String} {x : ι → Exec α}, exec names x → (∀ n ∈ names, n ∈ names') → exec names' x
  exec_bind : ∀ {α β : Type} {names : List String} {x : ι → Exec α} {f : ι → α → Exec β}, exec names x →
    (∀ a, exec names fun i => f i a) → exec names fun i => x i >>= f i
  exec_located : ∀ {α : Type} {names : List String} {x : ι → Exec α} (span : Option Span), exec names x →
    exec names fun i => Exec.located span (x i)
  bindName : ∀ name s, exec [name] fun _ => Exec.bind name s

namespace FamilyRule

variable {ι : Type} {F : FamilyRule ι} {r : ι → Interp} {α : Type}

/-! ## Steps without an interpreter -/

/-- To fail without doing anything follows every rule. -/
theorem fault (F : FamilyRule ι) (f : Fault) : F.eval fun _ => (Exec.fault f : Exec α) :=
  F.halt _

/-- Calculations follow every rule, with a result or without. -/
theorem lift (F : FamilyRule ι) (c : Except Fault α) : F.eval fun _ => Exec.lift c := by
  cases c with
  | ok a => exact F.pure a
  | error f => exact F.fault f

/-- A calculation from the heap follows every rule: it looks and changes nothing. -/
theorem look (F : FamilyRule ι) (f : Heap → Except Fault α) : F.eval fun _ => Exec.look f :=
  F.looking fun m => ⟨fun _ => Exec.lift (f m.heap), F.lift _, fun _ _ _ => rfl⟩

/-- A step that looks at the machine follows a rule if it does so for each machine and does not depend on the streams. -/
theorem get (F : FamilyRule ι) {f : ι → Machine → Exec α} (hf : ∀ m, F.eval fun i => f i m)
    (hstreams : ∀ i m source sink, f i { m with source, sink } = f i m) : F.eval fun i => get >>= f i := by
  refine F.looking fun m => ⟨fun i => f i m, hf m, fun i source sink => ?_⟩
  exact congrFun (hstreams i m source sink) { m with source, sink }

/-- Reading a slot follows every rule. -/
theorem read (F : FamilyRule ι) (s : SlotId) : F.eval fun _ => Exec.read s :=
  F.looking fun m => ⟨fun _ => Pure.pure (m.heap.get s), F.pure _, fun _ _ _ => rfl⟩

/-- Putting a value into a new slot follows every rule. -/
theorem alloc (F : FamilyRule ι) (v : Value) : F.eval fun _ => Exec.alloc v :=
  F.change _

/-- Looking up a name follows every rule. -/
theorem slotOf (F : FamilyRule ι) (name : String) : F.eval fun _ => Exec.slotOf name := by
  refine F.looking fun m => ?_
  cases hs : m.env.get? name with
  | some s => exact ⟨fun _ => Pure.pure s, F.pure s, fun _ _ _ => by simp only [Exec.slotOf, hs]; rfl⟩
  | none => exact ⟨fun _ => Exec.fault (.variableNotFound name), F.fault _, fun _ _ _ => by simp only [Exec.slotOf, hs]⟩

/-- Changing a heap that exists follows every rule. -/
theorem update (F : FamilyRule ι) (f : Heap → Except Fault Heap) : F.eval fun _ => Exec.update f := by
  refine F.looking fun m => ?_
  cases hf : f m.heap with
  | ok heap => exact ⟨fun _ => Exec.change fun _ => ((), heap), F.change _, fun _ _ _ => by simp only [Exec.update, hf]; rfl⟩
  | error e => exact ⟨fun _ => Exec.fault e, F.fault e, fun _ _ _ => by simp only [Exec.update, hf]⟩

/-! ## The interpreter of one level more -/

/-- What the interpreters of a family do follows the rule. -/
structure Holds (F : FamilyRule ι) (r : ι → Interp) : Prop where
  expr : ∀ e, F.eval fun i => (r i).expr e
  slot : ∀ e, F.eval fun i => (r i).slot e
  stmt : ∀ s : Stmt FuncId, F.exec s.assigned fun i => (r i).stmt s

namespace Holds

/-- The slots of positional arguments follow the rule, one after another. -/
theorem slots (hr : F.Holds r) (es : List (Expr FuncId)) : F.eval fun i => (r i).slots es := by
  induction es with
  | nil => exact F.pure _
  | cons e rest ih => exact F.bind (hr.slot e) fun s => F.bind ih fun rest => F.pure _

/-- The slots of named arguments follow the rule, one after another. -/
theorem namedSlots (hr : F.Holds r) (es : List (String × Expr FuncId)) : F.eval fun i => (r i).namedSlots es := by
  induction es with
  | nil => exact F.pure _
  | cons e rest ih => exact F.bind (hr.slot e.2) fun s => F.bind ih fun rest => F.pure _

/-- A block follows the rule for all names that are assigned to in it; by induction on its instructions. -/
theorem block (hr : F.Holds r) (code : Block FuncId) : F.exec (Stmt.assignedAll code) fun i => (r i).block code := by
  induction code with
  | nil => exact F.exec_of_eval _ (F.pure _)
  | cons stmt rest ih =>
    refine F.exec_bind (F.exec_mono (hr.stmt stmt) fun n hn => ?_) fun flow => ?_
    · simp [Stmt.assignedAll, hn]
    · cases flow with
      | returned s => exact F.exec_of_eval _ (F.pure _)
      | completed => exact F.exec_mono ih fun n hn => by simp [Stmt.assignedAll, hn]

/-- A block binds only what is assigned to in it, and so only names among any that these belong to. -/
theorem block_of_subset (hr : F.Holds r) {code : Block FuncId} {names : List String}
    (h : ∀ n ∈ Stmt.assignedAll code, n ∈ names) : F.exec names fun i => (r i).block code :=
  F.exec_mono (hr.block code) h

/-- A body runs in an environment of its own, so that a call evaluates, whatever its body assigns to. -/
theorem invoke (hr : F.Holds r) (limit : Nat) (f : Func) (args : List SlotId) (kwargs : List (String × SlotId)) :
    F.eval fun i => Interp.invoke limit (r i) f args kwargs := by
  refine F.get (fun m => ?_) fun _ _ _ _ => rfl
  split
  · exact F.fault _
  · refine F.bind (F.lift _) fun env => F.bind (F.enter env (hr.block f.code)) fun flow => ?_
    cases flow with
    | returned s => exact F.pure s
    | completed => exact F.alloc .void

/-- A call evaluates its target and its arguments before it runs a body. -/
theorem call (hr : F.Holds r) (limit : Nat) (target : Expr FuncId) (args : List (Expr FuncId))
    (kwargs : List (String × Expr FuncId)) : F.eval fun i => Interp.call limit (r i) target args kwargs := by
  refine F.bind (hr.expr target) fun v => ?_
  cases v with
  | func f => exact F.bind (hr.slots args) fun args => F.bind (hr.namedSlots kwargs) fun kwargs => hr.invoke limit f args kwargs
  | _ => exact F.fault _

/-- All forms of expressions follow the rule if reading input does. -/
theorem exprForm (hr : F.Holds r) (limit : Nat) (e : Expr FuncId)
    (hinput : ∀ span prompt, e = .input span prompt → F.eval fun i => (r i).input prompt) :
    F.eval fun i => Interp.exprForm limit (r i) e := by
  cases e with
  | literal _ value => exact F.pure _
  | convert _ goal value => exact F.bind (hr.expr value) fun v => F.look _
  | binary _ op left right => exact F.bind (hr.expr left) fun a => F.bind (hr.expr right) fun b => F.look _
  | not _ value => exact F.bind (hr.expr value) fun v => F.lift _
  | len _ target => exact F.bind (hr.expr target) fun v => F.look _
  | typeOf _ value => exact F.bind (hr.expr value) fun v => F.pure _
  | getVar _ name => exact F.bind (F.slotOf name) fun s => F.read s
  | list _ items => exact F.bind (hr.slots items) fun slots => F.bind (F.change _) fun l => F.pure _
  | range _ start stop => exact F.bind (hr.expr start) fun a => F.bind (hr.expr stop) fun b => F.pure _
  | subscript _ target index => exact F.bind (hr.expr target) fun v => F.bind (hr.expr index) fun i => F.look _
  | join _ target separator => exact F.bind (hr.expr target) fun v => F.bind (hr.expr separator) fun s => F.look _
  | input span prompt => exact hinput span prompt rfl
  | func _ label params code => exact F.pure _
  | call _ target args kwargs => exact F.bind (hr.call limit target args kwargs) fun s => F.read s

/-- Finding the slot of an element follows every rule. -/
theorem elementSlot (F : FamilyRule ι) (target index : Value) : F.eval fun _ => Interp.elementSlot target index := by
  unfold Interp.elementSlot
  cases target with
  | list l => exact F.look _
  | _ => exact F.bind (F.look _) fun part => F.alloc part

/-- The slot of an expression follows the rule if reading input does. -/
theorem nextSlot (hr : F.Holds r) (limit : Nat) (e : Expr FuncId)
    (hinput : ∀ span prompt, e = .input span prompt → F.eval fun i => (r i).input prompt) :
    F.eval fun i => Interp.nextSlot limit (r i) e := by
  cases e with
  | getVar span name => exact F.located span (F.slotOf name)
  | subscript span target index =>
    exact F.bind (hr.expr target) fun v => F.bind (hr.expr index) fun i => F.located span (elementSlot F v i)
  | call span target args kwargs => exact F.located span (hr.call limit target args kwargs)
  | _ => exact F.bind (F.located _ (hr.exprForm limit _ hinput)) fun v => F.alloc v

/-! ### Instructions -/

theorem test (hr : F.Holds r) (e : Expr FuncId) : F.eval fun i => (r i).test e :=
  F.bind (hr.expr e) fun _ => F.located e.span (F.look _)

/-- The slot that an instruction changes is found by following the rule. -/
theorem targetSlot (hr : F.Holds r) (target : Expr FuncId) : F.eval fun i => (r i).targetSlot target := by
  cases target with
  | getVar span name => exact F.located span (F.slotOf name)
  | subscript span container index =>
    refine F.bind (hr.expr container) fun v => ?_
    cases v with
    | list l => exact F.bind (hr.expr index) fun i => F.bind (F.lift _) fun i => F.located span (F.look _)
    | _ => exact F.located span (F.fault _)
  | _ => exact F.located _ (F.fault _)

/-- A compound assignment changes a slot and binds no name, so it counts as evaluating. -/
theorem compound (hr : F.Holds r) (op : ArithOp) (target value : Expr FuncId) : F.eval fun i => (r i).compound op target value :=
  F.bind (hr.targetSlot target) fun s => F.bind (hr.expr value) fun _ => F.bind (F.read s) fun _ =>
    F.bind (F.look _) fun _ => F.change _

/-- A switch binds what its cases bind, the default among them; by induction on the cases. -/
theorem switch (hr : F.Holds r) (default : Option (Block FuncId)) (cases : List (Expr FuncId × Block FuncId)) :
    F.exec (Stmt.assignedCases cases ++ Stmt.assignedOption default) fun i => (r i).switch default cases := by
  induction cases with
  | nil =>
    cases default with
    | none => exact F.exec_of_eval _ (F.pure _)
    | some code => exact hr.block_of_subset fun n hn => by simpa [Stmt.assignedCases, Stmt.assignedOption] using hn
  | cons c rest ih =>
    obtain ⟨cond, code⟩ := c
    refine F.exec_bind (F.exec_of_eval _ (hr.test cond)) fun holds => ?_
    cases holds with
    | true => exact hr.block_of_subset fun n hn => by simp [Stmt.assignedCases, hn]
    | false =>
      refine F.exec_mono ih fun n hn => ?_
      simp only [Stmt.assignedCases, List.append_assoc, List.mem_append] at hn ⊢
      exact Or.inr hn

/-- A loop binds its variable besides what its body binds; by induction on the rounds that are left. -/
theorem loop (hr : F.Holds r) (var : String) (code : Block FuncId) (fuel : Nat) (cursor : Cursor) :
    F.exec (var :: Stmt.assignedAll code) fun i => (r i).loop var code fuel cursor := by
  induction fuel generalizing cursor with
  | zero => exact F.exec_of_eval _ (F.halt _)
  | succ fuel ih =>
    refine F.exec_bind (F.exec_of_eval _ (F.change _)) fun item => ?_
    match item with
    | none => exact F.exec_of_eval _ (F.pure _)
    | some (s, cursor) =>
      refine F.exec_bind (F.exec_mono (F.bindName var s) fun n hn => by simp_all) fun _ => ?_
      refine F.exec_bind (hr.block_of_subset fun n hn => by simp [hn]) fun flow => ?_
      cases flow with
      | returned s => exact F.exec_of_eval _ (F.pure _)
      | completed => exact ih cursor

/-- All forms of instructions follow the rule for the names that they assign to. -/
theorem stmtForm (hr : F.Holds r) (fuel : Nat) (s : Stmt FuncId) : F.exec s.assigned fun i => Interp.stmtForm fuel (r i) s := by
  cases s with
  | setVar _ name value =>
    exact F.exec_bind (F.exec_of_eval _ (hr.slot value)) fun s => F.exec_bind (F.bindName name s) fun _ =>
      F.exec_of_eval _ (F.pure _)
  | compound _ op target value => exact F.exec_of_eval _ (F.bind (hr.compound op target value) fun _ => F.pure _)
  | append _ target value =>
    refine F.exec_of_eval _ ?_
    exact F.bind (hr.expr target) fun v => F.bind (hr.slot value) fun s => F.bind (F.lift _) fun l =>
      F.bind (F.change _) fun _ => F.pure _
  | insert _ target index value =>
    refine F.exec_of_eval _ ?_
    exact F.bind (hr.expr target) fun v => F.bind (hr.expr index) fun i => F.bind (hr.slot value) fun s =>
      F.bind (F.update _) fun _ => F.pure _
  | remove _ target index =>
    refine F.exec_of_eval _ ?_
    exact F.bind (hr.expr target) fun v => F.bind (hr.expr index) fun i => F.bind (F.update _) fun _ => F.pure _
  | print _ value =>
    refine F.exec_of_eval _ ?_
    exact F.bind (hr.expr value) fun v => F.bind (F.look _) fun text => F.bind (F.write _) fun _ => F.pure _
  | cond _ cond code otherwise =>
    refine F.exec_bind (F.exec_of_eval _ (hr.test cond)) fun holds => ?_
    cases holds with
    | true => exact hr.block_of_subset fun n hn => by simp [Stmt.assigned, hn]
    | false =>
      cases otherwise with
      | none => exact F.exec_of_eval _ (F.pure _)
      | some code => exact hr.block_of_subset fun n hn => by simp [Stmt.assigned, Stmt.assignedOption, hn]
  | switch _ cases default => exact hr.switch default cases
  | loop _ var list code =>
    exact F.exec_bind (F.exec_of_eval _ (hr.expr list)) fun v => F.exec_bind (F.exec_of_eval _ (F.lift _)) fun cursor =>
      hr.loop var code fuel cursor
  | ret _ value =>
    refine F.exec_of_eval _ (F.get (fun m => ?_) fun _ _ _ _ => rfl)
    split
    · exact F.fault _
    · cases value with
      | none => exact F.bind (F.alloc .void) fun s => F.pure _
      | some e => exact F.bind (hr.slot e) fun s => F.pure _
  | expr _ value => exact F.exec_of_eval _ (F.bind (hr.expr value) fun _ => F.pure _)

end Holds

end FamilyRule

/-! ## Rules for one interpreter -/

/-- A property of steps that all ways to put steps together keep: `eval` for steps that evaluate, and `exec names` for steps that
execute instructions and may bind the names. -/
structure StepRule where
  eval : ∀ {α : Type}, Exec α → Prop
  exec : ∀ {α : Type}, List String → Exec α → Prop
  pure : ∀ {α : Type} (a : α), eval (Pure.pure a)
  halt : ∀ {α : Type} (e : Halt), eval (throw e : Exec α)
  bind : ∀ {α β : Type} {x : Exec α} {f : α → Exec β}, eval x → (∀ a, eval (f a)) → eval (x >>= f)
  located : ∀ {α : Type} {x : Exec α} (span : Option Span), eval x → eval (Exec.located span x)
  /-- A step that looks at the state, except for the input and the output, before it goes on as another step. -/
  looking : ∀ {α : Type} {x : Exec α},
    (∀ m : Machine, ∃ y : Exec α, eval y ∧ ∀ source sink, x { m with source, sink } = y { m with source, sink }) → eval x
  change : ∀ {α : Type} (f : Heap → α × Heap), eval (Exec.change f)
  write : ∀ text, eval (Exec.write text)
  flush : eval Exec.flush
  readLine : eval Exec.readLine
  /-- A step in an environment of its own may bind there what it likes. -/
  enter : ∀ {α : Type} {names : List String} {x : Exec α} (env : Env), exec names x → eval (Interp.enter env x)
  exec_of_eval : ∀ {α : Type} {x : Exec α} (names : List String), eval x → exec names x
  exec_mono : ∀ {α : Type} {names names' : List String} {x : Exec α}, exec names x → (∀ n ∈ names, n ∈ names') → exec names' x
  exec_bind : ∀ {α β : Type} {names : List String} {x : Exec α} {f : α → Exec β}, exec names x → (∀ a, exec names (f a)) →
    exec names (x >>= f)
  exec_located : ∀ {α : Type} {names : List String} {x : Exec α} (span : Option Span), exec names x →
    exec names (Exec.located span x)
  bindName : ∀ name s, exec [name] (Exec.bind name s)

namespace StepRule

variable {S : StepRule} {r : Interp} {α : Type}

/-- The rule for families of one step. -/
def family (S : StepRule) : FamilyRule Unit where
  eval x := S.eval (x ())
  exec names x := S.exec names (x ())
  pure := S.pure
  halt := S.halt
  bind := S.bind
  located := S.located
  looking h := by
    refine S.looking fun m => ?_
    obtain ⟨y, hy, heq⟩ := h m
    exact ⟨y (), hy, heq ()⟩
  change := S.change
  write := S.write
  flush := S.flush
  enter := S.enter
  exec_of_eval := S.exec_of_eval
  exec_mono := S.exec_mono
  exec_bind := S.exec_bind
  exec_located := S.exec_located
  bindName := S.bindName

theorem lift (S : StepRule) (c : Except Fault α) : S.eval (Exec.lift c) :=
  S.family.lift c

/-- Calculations from the heap follow every rule for one interpreter. -/
theorem look (S : StepRule) (f : Heap → Except Fault α) : S.eval (Exec.look f) :=
  S.family.look f

/-- Changing a heap that exists follows every rule for one interpreter. -/
theorem update (S : StepRule) (f : Heap → Except Fault Heap) : S.eval (Exec.update f) :=
  S.family.update f

/-- What an interpreter does follows the rule. -/
structure Holds (S : StepRule) (r : Interp) : Prop where
  expr : ∀ e, S.eval (r.expr e)
  slot : ∀ e, S.eval (r.slot e)
  stmt : ∀ s, S.exec s.assigned (r.stmt s)

namespace Holds

/-- An interpreter that follows a rule is a family that does. -/
theorem family (hr : S.Holds r) : S.family.Holds fun _ => r :=
  ⟨hr.expr, hr.slot, hr.stmt⟩

theorem slots (hr : S.Holds r) (es : List (Expr FuncId)) : S.eval (r.slots es) :=
  hr.family.slots es

theorem namedSlots (hr : S.Holds r) (es : List (String × Expr FuncId)) : S.eval (r.namedSlots es) :=
  hr.family.namedSlots es

/-- A block follows the rule for the names that are assigned to in it. -/
theorem block (hr : S.Holds r) (code : Block FuncId) : S.exec (Stmt.assignedAll code) (r.block code) :=
  hr.family.block code

theorem test (hr : S.Holds r) (e : Expr FuncId) : S.eval (r.test e) :=
  hr.family.test e

theorem targetSlot (hr : S.Holds r) (target : Expr FuncId) : S.eval (r.targetSlot target) :=
  hr.family.targetSlot target

theorem compound (hr : S.Holds r) (op : ArithOp) (target value : Expr FuncId) : S.eval (r.compound op target value) :=
  hr.family.compound op target value

/-- Reading a line of input follows the rule: the prompt is written before the line is read. -/
theorem input (hr : S.Holds r) (prompt : Option (Expr FuncId)) : S.eval (r.input prompt) := by
  have hread : S.eval (do Exec.flush; let line ← Exec.readLine; return Value.string line) :=
    S.bind S.flush fun _ => S.bind S.readLine fun _ => S.pure _
  cases prompt with
  | none => exact hread
  | some e => exact S.bind (hr.expr e) fun v => S.bind (S.lift _) fun text => S.bind (S.write text) fun _ => hread

/-- What follows the rule at one level does so at the next. -/
theorem next (hr : S.Holds r) (limit fuel : Nat) : S.Holds (Interp.next limit fuel r) where
  expr e := S.located e.span (hr.family.exprForm limit e fun _ prompt _ => hr.input prompt)
  slot e := hr.family.nextSlot limit e fun _ prompt _ => hr.input prompt
  stmt s := S.exec_located s.span (hr.family.stmtForm fuel s)

end Holds

/-- Every interpreter follows the rule; by induction on the levels. -/
theorem interp_holds (S : StepRule) (limit fuel : Nat) : S.Holds (interp limit fuel) := by
  induction fuel with
  | zero => exact ⟨fun _ => S.halt _, fun _ => S.halt _, fun _ => S.exec_of_eval _ (S.halt _)⟩
  | succ fuel ih => exact ih.next limit fuel

end StepRule

end NodeScript
