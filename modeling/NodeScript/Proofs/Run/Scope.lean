import Mathlib.Order.Defs.Unbundled
import NodeScript.Proofs.Run.Step

/-!
# What a run does to the names that are bound

Evaluating an expression leaves the environment and the call depth as they were, whatever functions it calls and however it ends.
Executing instructions leaves the depth, unbinds nothing, and binds anew at most the names that the instructions assign to
outside function bodies (`Stmt.assigned`). Each way to put steps together keeps to this (`StepRule.scope`), and so every
interpreter does (`interp_scoped`).
-/

namespace NodeScript

/-! ## Binding a name -/

namespace Env

/-- A binding is replaced where it stands, or added at the end; no other name is touched. -/
theorem lookup_bindIn (name other : String) (s : SlotId) (bindings : List (String × SlotId)) :
    (bindIn name s bindings).lookup other = if other = name then some s else bindings.lookup other := by
  induction bindings with
  | nil =>
    by_cases h : other = name
    · simp [bindIn, h]
    · simp [bindIn, List.lookup_cons, h, beq_false_of_ne h]
  | cons b rest ih =>
    obtain ⟨n, t⟩ := b
    by_cases hn : n = name
    · by_cases ho : other = name
      · simp [bindIn, hn, ho]
      · simp [bindIn, hn, ho, List.lookup_cons, beq_false_of_ne ho]
    · by_cases ho : other = n
      · simp [bindIn, hn, ho]
      · simp [bindIn, hn, ih, List.lookup_cons, beq_false_of_ne ho]

/-- A name that is bound to a slot stands for it, and every other name for what it stood for before. -/
theorem get?_bind (env : Env) (name other : String) (s : SlotId) :
    (env.bind name s).get? other = if other = name then some s else env.get? other :=
  lookup_bindIn name other s env.bindings

end Env

/-! ## Relations between the first and the last state of a step -/

namespace Exec

variable {α β : Type}

/-- The state that a step reaches, whatever its outcome. -/
def after (x : Exec α) (m : Machine) : Machine :=
  match x m with
  | .ok _ m' => m'
  | .error _ m' => m'

/-- Every outcome of a step leaves a state that stands in the relation `R` to the one before. -/
def Keeps (R : Machine → Machine → Prop) (x : Exec α) : Prop :=
  ∀ m, R m (x.after m)

namespace Keeps

variable {R : Machine → Machine → Prop}

/-- What keeps a relation keeps each relation that follows from it. -/
theorem mono {R' : Machine → Machine → Prop} {x : Exec α} (hx : Keeps R x) (h : ∀ m m', R m m' → R' m m') : Keeps R' x :=
  fun m => h _ _ (hx m)

/-- One step after another keeps a relation that goes on from state to state. -/
theorem bind [IsTrans Machine R] {x : Exec α} {f : α → Exec β} (hx : Keeps R x) (hf : ∀ a, Keeps R (f a)) :
    Keeps R (x >>= f) := by
  intro m
  have h := hx m
  rw [after, bind_apply]
  rw [after] at h
  cases hxm : x m with
  | ok a m' =>
    rw [hxm] at h
    exact IsTrans.trans _ _ _ h (hf a m')
  | error e m' =>
    rw [hxm] at h
    exact h

/-- A step that changes nothing keeps every relation that a state has to itself. -/
theorem of_after_eq [Std.Refl R] {x : Exec α} (h : ∀ m, x.after m = m) : Keeps R x := by
  intro m
  rw [h m]
  exact refl m

theorem pure [Std.Refl R] (a : α) : Keeps R (Pure.pure a) :=
  of_after_eq fun _ => rfl

theorem throw [Std.Refl R] (e : Halt) : Keeps R (MonadExcept.throw e : Exec α) :=
  of_after_eq fun _ => rfl

theorem fault [Std.Refl R] (f : Fault) : Keeps R (Exec.fault f : Exec α) :=
  throw _

/-- A calculation leaves the state as it is. -/
theorem lift [Std.Refl R] (c : Except Fault α) : Keeps R (Exec.lift c) := by
  cases c with
  | ok a => exact pure a
  | error f => exact fault f

theorem look [Std.Refl R] (f : Heap → Except Fault α) : Keeps R (Exec.look f) :=
  fun m => lift (f m.heap) m

theorem read [Std.Refl R] (s : SlotId) : Keeps R (Exec.read s) :=
  of_after_eq fun _ => rfl

/-- To look up a name leaves the state as it is. -/
theorem slotOf [Std.Refl R] (name : String) : Keeps R (Exec.slotOf name) := by
  refine of_after_eq fun m => ?_
  unfold after Exec.slotOf
  cases m.env.get? name <;> rfl

theorem flush [Std.Refl R] : Keeps R flush := by
  refine of_after_eq fun m => ?_
  unfold after Exec.flush
  cases m.sink.flushFault <;> rfl

/-- The position of a failure does not matter to the state. -/
theorem located {x : Exec α} (hx : Keeps R x) (span : Option Span) : Keeps R (located span x) := by
  intro m
  have h := hx m
  unfold after at h ⊢
  unfold Exec.located
  cases hxm : x m with
  | ok a m' => simpa [hxm] using h
  | error e m' => cases e <;> simpa [hxm] using h

end Keeps

end Exec

/-! ## The scope of a state -/

/-- The same names are bound to the same slots, and as many calls are open. -/
structure SameScope (m m' : Machine) : Prop where
  env : m'.env = m.env
  depth : m'.depth = m.depth

instance : IsPreorder Machine SameScope where
  refl _ := ⟨rfl, rfl⟩
  trans _ _ _ h h' := ⟨h'.env.trans h.env, h'.depth.trans h.depth⟩

/-- As many calls are open, no name is unbound, and a name that is not among `names` is bound to the same slot as before, or
unbound as before. -/
structure Rebinds (names : List String) (m m' : Machine) : Prop where
  depth : m'.depth = m.depth
  bound : ∀ n, m.env.contains n → m'.env.contains n
  slot : ∀ n ∉ names, m'.env.get? n = m.env.get? n

instance (names : List String) : IsPreorder Machine (Rebinds names) where
  refl _ := ⟨rfl, fun _ h => h, fun _ _ => rfl⟩
  trans _ _ _ h h' :=
    ⟨h'.depth.trans h.depth, fun n hn => h'.bound n (h.bound n hn), fun n hn => (h'.slot n hn).trans (h.slot n hn)⟩

/-- Where the scope is the same, no name is bound anew. -/
theorem SameScope.rebinds {m m' : Machine} (h : SameScope m m') (names : List String) : Rebinds names m m' :=
  ⟨h.depth, fun n hn => by rw [h.env]; exact hn, fun n _ => by rw [h.env]⟩

/-- More names may be bound anew. -/
theorem Rebinds.mono {names names' : List String} {m m' : Machine} (h : Rebinds names m m')
    (hsub : ∀ n ∈ names, n ∈ names') : Rebinds names' m m' :=
  ⟨h.depth, h.bound, fun n hn => h.slot n fun hmem => hn (hsub n hmem)⟩

/-! ## Steps that keep the scope -/

namespace Exec

variable {α : Type}

/-- A change of the heap binds no name. -/
theorem change_keeps (f : Heap → α × Heap) : Keeps SameScope (change f) :=
  fun _ => ⟨rfl, rfl⟩

/-- Writing binds no name. -/
theorem write_keeps (text : String) : Keeps SameScope (write text) := by
  rintro ⟨env, heap, source, sink, depth⟩
  unfold after write
  dsimp only
  rcases sink.write text with ⟨_ | message, sink'⟩ <;> exact ⟨rfl, rfl⟩

/-- Reading a line binds no name. -/
theorem readLine_keeps : Keeps SameScope readLine := by
  intro m
  unfold after readLine
  cases m.source.line? <;> exact ⟨rfl, rfl⟩

/-- Binding a name binds that name anew. -/
theorem bind_keeps (name : String) (s : SlotId) : Keeps (Rebinds [name]) (Exec.bind name s) := by
  rintro ⟨env, heap, source, sink, depth⟩
  refine ⟨rfl, fun n hn => ?_, fun n hn => ?_⟩
  · show ((env.bind name s).get? n).isSome
    rw [Env.get?_bind]
    split
    · rfl
    · exact hn
  · show (env.bind name s).get? n = env.get? n
    rw [Env.get?_bind, if_neg (by simpa using hn)]

/-- A step in an environment of its own leaves the caller's environment and depth, whatever it does to its own. -/
theorem enter_keeps (env : Env) (x : Exec α) : Keeps SameScope (Interp.enter env x) := by
  rintro ⟨callerEnv, heap, source, sink, depth⟩
  unfold after Interp.enter
  dsimp only
  cases x ⟨env, heap, source, sink, depth + 1⟩ <;> exact ⟨rfl, rfl⟩

end Exec

open Exec

/-- Steps that evaluate keep the scope, and steps that execute rebind only the names they may bind. -/
def StepRule.scope : StepRule where
  eval := Keeps SameScope
  exec names := Keeps (Rebinds names)
  pure := .pure
  halt := .throw
  bind hx hf := hx.bind hf
  located span hx := hx.located span
  looking h m := by
    obtain ⟨y, hy, heq⟩ := h m
    unfold after
    rw [heq m.source m.sink]
    exact hy m
  change := change_keeps
  write := write_keeps
  flush := .flush
  readLine := readLine_keeps
  enter env _ := enter_keeps env _
  exec_of_eval names hx := hx.mono fun _ _ h => h.rebinds names
  exec_mono hx hsub := hx.mono fun _ _ h => h.mono hsub
  exec_bind hx hf := hx.bind hf
  exec_located span hx := hx.located span
  bindName := bind_keeps

/-! ## Interpreters -/

/-- An interpreter that leaves the scope alone when it evaluates, and rebinds only what an instruction assigns to when it
executes. -/
structure Interp.Scoped (r : Interp) : Prop where
  expr : ∀ e, Keeps SameScope (r.expr e)
  slot : ∀ e, Keeps SameScope (r.slot e)
  stmt : ∀ s, Keeps (Rebinds s.assigned) (r.stmt s)

/-- Every interpreter keeps to the scope; this is the rule for all steps. -/
theorem interp_scoped (limit fuel : Nat) : (interp limit fuel).Scoped :=
  have h := StepRule.scope.interp_holds limit fuel
  ⟨h.expr, h.slot, h.stmt⟩

namespace Interp

variable {r : Interp}

theorem Scoped.holds (hr : r.Scoped) : StepRule.scope.Holds r :=
  ⟨hr.expr, hr.slot, hr.stmt⟩

/-- The slots of positional arguments are found without binding a name here. -/
theorem Scoped.slots (hr : r.Scoped) (es : List (Expr FuncId)) : Keeps SameScope (r.slots es) :=
  hr.holds.slots es

/-- The slots of named arguments are found without binding a name here. -/
theorem Scoped.namedSlots (hr : r.Scoped) (es : List (String × Expr FuncId)) : Keeps SameScope (r.namedSlots es) :=
  hr.holds.namedSlots es

/-- A block rebinds only what is assigned to in it. -/
theorem Scoped.block (hr : r.Scoped) (code : Block FuncId) : Keeps (Rebinds (Stmt.assignedAll code)) (r.block code) :=
  hr.holds.block code

theorem Scoped.test (hr : r.Scoped) (e : Expr FuncId) : Keeps SameScope (r.test e) :=
  hr.holds.test e

/-- The slot that an assignment works on is found without binding a name. -/
theorem Scoped.targetSlot (hr : r.Scoped) (target : Expr FuncId) : Keeps SameScope (r.targetSlot target) :=
  hr.holds.targetSlot target

end Interp

end NodeScript
