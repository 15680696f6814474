import NodeScript.Proofs.Run.Work
import NodeScript.Proofs.Value.Calculation

/-!
# Two runs in step

How the outcomes of two interpreters compare that start from states with the same environment, heap and depth, and with input and
output that may differ. What a relation between outcomes has to satisfy is said once (`Simulation`, and `Simulation.Tracks` for
what depends on the interpreter): it carries over from the parts of a piece of work to the whole. Then it holds of the
interpreters of one level more where it holds of the interpreters below (`Simulation.Relates.next`). The relation knows the piece
of work and the state in which the first run came to it, so it can say where in the work the first run stopped.
-/

namespace NodeScript

/-! ## Outcomes and plain steps -/

/-- How a step ended, and the state it reached. -/
abbrev Outcome (α : Type) := EStateM.Result Halt Machine α

/-- The state that a step reached. -/
def Outcome.state {α : Type} : Outcome α → Machine
  | .ok _ m => m
  | .error _ m => m

/-- The same outcome in another state. -/
def Outcome.onState {α : Type} (g : Machine → Machine) : Outcome α → Outcome α
  | .ok a m => .ok a (g m)
  | .error e m => .error e (g m)

/-- The outcome of a call, when the caller's environment and depth are back. -/
def Outcome.leave {α : Type} (m : Machine) (res : Outcome α) : Outcome α :=
  res.onState fun m' => { m' with env := m.env, depth := m.depth }

/-- A call runs in its own environment, one call deeper, and leaves both. -/
theorem Interp.enter_apply {α : Type} (env : Env) (x : Exec α) (m : Machine) :
    Interp.enter env x m = Outcome.leave m (x { m with env, depth := m.depth + 1 }) := by
  unfold Interp.enter Outcome.leave Outcome.onState
  dsimp only
  cases x { m with env, depth := m.depth + 1 } <;> rfl

namespace Exec

variable {α β : Type}

/-- A step that leaves the input and the output alone, and fails only with ordinary faults that have no position yet. -/
structure Plain (x : Exec α) : Prop where
  fails : ∀ m f m', x m = .error (.failed f) m' → f.span = none ∧ f.fault.Ordinary
  streams : ∀ (m : Machine) source sink,
    x { m with source, sink } = Outcome.onState (fun m' => { m' with source, sink }) (x m)

namespace Plain

theorem pure (a : α) : Plain (Pure.pure a) :=
  ⟨fun _ _ _ h => (nomatch h), fun _ _ _ => rfl⟩

/-- A step that is out of fuel has neither read nor written. -/
theorem outOfFuel : Plain (throw .outOfFuel : Exec α) :=
  ⟨fun _ _ _ h => (nomatch h), fun _ _ _ => rfl⟩

/-- An ordinary fault is plain. -/
theorem fault {f : Fault} (hf : f.Ordinary) : Plain (fault f : Exec α) := by
  refine ⟨fun m e m' h => ?_, fun _ _ _ => rfl⟩
  cases h
  exact ⟨rfl, hf⟩

/-- A calculation is plain. -/
theorem lift {c : Except Fault α} (hc : Calculates c) : Plain (lift c) := by
  cases c with
  | ok a => exact pure a
  | error f => exact fault (hc f rfl)

theorem look {f : Heap → Except Fault α} (hf : ∀ h, Calculates (f h)) : Plain (look f) :=
  ⟨fun m => (lift (hf m.heap)).fails m, fun m => (lift (hf m.heap)).streams m⟩

/-- A change of the heap is plain: it never fails. -/
theorem change (f : Heap → α × Heap) : Plain (change f) :=
  ⟨fun _ _ _ h => (nomatch h), fun _ _ _ => rfl⟩

/-- An update of the heap is plain if its faults are ordinary. -/
theorem update {f : Heap → Except Fault Heap} (hf : ∀ h, Calculates (f h)) : Plain (update f) := by
  refine ⟨fun m e m' h => ?_, fun m source sink => ?_⟩
  · unfold Exec.update at h
    split at h
    · cases h
    · rename_i reason hreason
      cases h
      exact ⟨rfl, hf m.heap reason hreason⟩
  · unfold Exec.update
    cases f m.heap <;> rfl

theorem read (s : SlotId) : Plain (read s) :=
  ⟨fun _ _ _ h => (nomatch h), fun _ _ _ => rfl⟩

theorem bindName (name : String) (s : SlotId) : Plain (Exec.bind name s) :=
  ⟨fun _ _ _ h => (nomatch h), fun _ _ _ => rfl⟩

/-- A name that is not bound is an ordinary fault. -/
theorem slotOf (name : String) : Plain (slotOf name) := by
  refine ⟨fun m e m' h => ?_, fun m source sink => ?_⟩
  · unfold Exec.slotOf at h
    split at h
    · cases h
    · cases h
      exact ⟨rfl, trivial⟩
  · unfold Exec.slotOf
    cases m.env.get? name <;> rfl

/-- One plain step after another is plain. -/
theorem bind {x : Exec α} {f : α → Exec β} (hx : Plain x) (hf : ∀ a, Plain (f a)) : Plain (x >>= f) := by
  refine ⟨fun m e m' h => ?_, fun m source sink => ?_⟩
  · rw [bind_apply] at h
    cases hxm : x m with
    | ok a m₁ =>
      rw [hxm] at h
      exact (hf a).fails m₁ e m' h
    | error halt m₁ =>
      rw [hxm] at h
      cases h
      exact hx.fails m e m' hxm
  · rw [bind_apply, bind_apply, hx.streams]
    cases x m with
    | ok a m₁ => exact (hf a).streams m₁ source sink
    | error halt m₁ => rfl

end Plain

end Exec

/-! ## Calls -/

namespace Interp

/-- To bind named arguments is a calculation: a name that is no parameter is an ordinary fault. -/
theorem calculates_bindNamed (kwargs : List (String × SlotId)) (params : List String) (env : Env) :
    Calculates (bindNamed kwargs params env) := by
  induction kwargs generalizing params env with
  | nil => exact .ok _
  | cons b rest ih =>
    rw [bindNamed]
    split
    · exact ih _ _
    · exact .error trivial

/-- The environment of a call is a calculation: too many or too few arguments are an ordinary fault. -/
theorem calculates_callEnv (h : Heap) (f : Func) (args : List SlotId) (kwargs : List (String × SlotId)) (env : Env) :
    Calculates (callEnv h f args kwargs env) := by
  refine (calculates_bindNamed kwargs f.params env).bind fun named => ?_
  dsimp only
  split
  · exact .ok _
  · exact .error trivial

/-- To find the slot of an element is plain. -/
theorem elementSlot_plain (target index : Value) : (elementSlot target index).Plain := by
  unfold elementSlot
  cases target with
  | list l => exact .look fun h => (Value.calculates_index index).bind fun i => Value.calculates_slotAt h l i
  | _ => exact (Exec.Plain.look fun h => Value.calculates_subscript h _ index).bind fun part => .change _

end Interp

/-! ## What relations between outcomes have to satisfy -/

/-- The positions that failures may get from a piece of work itself: that of its node, and, since a compound assignment works on
its target in its own way, that of the target. -/
def Work.spans : Work → List (Option Span)
  | .value e | .slot e => [e.span]
  | .stmt (.compound span _ target _) => [span, target.span]
  | .stmt s => [s.span]
  | _ => []

/-- An instruction may give its own position to a failure. -/
theorem Work.span_mem_spans_stmt (s : Stmt FuncId) : s.span ∈ (Work.stmt s).spans := by
  cases s <;> exact .head _

/-- The work is a call of a function with slots. -/
def Work.isInvoke : Work → Bool
  | .invoke _ _ _ => true
  | _ => false

/-- To evaluate an expression is no call with slots. -/
theorem Work.Evaluates.isInvoke {w : Work} {e : Expr FuncId} (h : w.Evaluates e) : w.isInvoke = false := by
  cases w with
  | value | slot => rfl
  | _ => cases h

/-- `Writes r w m text m'`: the work `w`, which a run comes to in the state `m`, writes the text in the state `m'`, where `r` does
what lies before. It is a `print`, or an `input` with a prompt. -/
inductive Writes (r : Interp) : Work → Machine → String → Machine → Prop where
  | print {value : Expr FuncId} {m m' : Machine} {v : Value} {text : String} {span : Option Span} (hv : r.expr value m = .ok v m')
      (ht : m'.heap.render v = .ok text) : Writes r (.stmt (.print span value)) m (text ++ "\n") m'
  | prompt {e : Expr FuncId} {m m' : Machine} {v : Value} {text : String} {w : Work} {span : Option Span}
      (hw : w.Evaluates (.input span (some e))) (hv : r.expr e m = .ok v m') (ht : v.scalarText = .ok text) : Writes r w m text m'

/-- A relation between the outcomes of two runs that carries over from the parts of a piece of work to the whole. The first run
lets `limit` calls be open and the second one `limit'`, and `streams` says which input and output the second run may have where
the first one has its own. `rel w m` relates the outcomes of steps that belong to the work `w`, which the first run came to in the
state `m`. -/
structure Simulation (limit limit' : Nat) where
  streams : Source → Sink → Source → Sink → Prop
  rel : Work → Machine → ∀ {α : Type}, Outcome α → Outcome α → Prop
  limit_le : limit ≤ limit'
  plain : ∀ {α : Type} {x : Exec α} {w : Work} {m m₁ : Machine} {source : Source} {sink : Sink},
    streams m₁.source m₁.sink source sink → x.Plain → rel w m (x m₁) (x { m₁ with source, sink })
  flush : ∀ {w : Work} {m m₁ : Machine} {source : Source} {sink : Sink}, streams m₁.source m₁.sink source sink →
    rel w m (Exec.flush m₁) (Exec.flush { m₁ with source, sink })
  readLine : ∀ {w : Work} {m m₁ : Machine} {source : Source} {sink : Sink}, streams m₁.source m₁.sink source sink →
    rel w m (Exec.readLine m₁) (Exec.readLine { m₁ with source, sink })
  bind : ∀ {α β : Type} {x x' : Exec α} {f f' : α → Exec β} {w : Work} {m m₁ m₁' : Machine}, rel w m (x m₁) (x' m₁') →
    (∀ a m₂ source sink, x m₁ = .ok a m₂ → streams m₂.source m₂.sink source sink →
      rel w m (f a m₂) (f' a { m₂ with source, sink })) → rel w m ((x >>= f) m₁) ((x' >>= f') m₁')
  located : ∀ {α : Type} {x x' : Exec α} {w : Work} {m m₁ m₁' : Machine} {span : Option Span}, span ∈ w.spans →
    rel w m (x m₁) (x' m₁') → rel w m (Exec.located span x m₁) (Exec.located span x' m₁')
  /-- A `return` outside functions. -/
  ret : ∀ {m : Machine} {span : Option Span} {value : Option (Expr FuncId)} {source : Source} {sink : Sink}, m.depth = 0 →
    streams m.source m.sink source sink →
    rel (.stmt (.ret span value)) m ((Exec.fault .returnOutsideFunction : Exec Flow) m)
      ((Exec.fault .returnOutsideFunction : Exec Flow) { m with source, sink })
  /-- The first run has no call left. The second one then has none left either if its limit is the same. -/
  exhausted : ∀ {α : Type} {x : Exec α} {w : Work} {m : Machine} {source : Source} {sink : Sink}, limit ≤ m.depth →
    streams m.source m.sink source sink →
    (limit' = limit → x { m with source, sink } = Exec.fault (.callDepth limit) { m with source, sink }) →
    rel w m ((Exec.fault (.callDepth limit) : Exec α) m) (x { m with source, sink })

namespace Simulation

variable {limit limit' : Nat} {S : Simulation limit limit'} {r r' : Interp} {m : Machine} {source : Source} {sink : Sink}

/-- What a relation has to satisfy where an interpreter does the parts of a piece of work: it carries over from work to the work
that leads there, from the body of a function to the call, and it holds of all that is written. -/
structure Tracks (S : Simulation limit limit') (r : Interp) : Prop where
  part : ∀ {α : Type} {res res' : Outcome α} {w w₁ : Work} {m m₁ : Machine}, Leads limit r w m w₁ m₁ → w.isInvoke = false →
    S.rel w₁ m₁ res res' → S.rel w m res res'
  call : ∀ {α : Type} {res res' : Outcome α} {m : Machine} {f : Func} {args : List SlotId} {kwargs : List (String × SlotId)}
    {env : Env}, m.depth < limit → Interp.callEnv m.heap f args kwargs m.env = .ok env →
    S.rel (.block f.code) { m with env, depth := m.depth + 1 } res res' →
    S.rel (.invoke f args kwargs) m (res.leave m) (res'.leave m)
  write : ∀ {w : Work} {m m₁ : Machine} {text : String} {source : Source} {sink : Sink}, Writes r w m text m₁ →
    S.streams m₁.source m₁.sink source sink → S.rel w m (Exec.write text m₁) (Exec.write text { m₁ with source, sink })

/-- The outcomes of two interpreters are related. -/
structure Relates (S : Simulation limit limit') (r r' : Interp) : Prop where
  expr : ∀ (e : Expr FuncId) {m : Machine} {source : Source} {sink : Sink}, S.streams m.source m.sink source sink →
    S.rel (.value e) m (r.expr e m) (r'.expr e { m with source, sink })
  slot : ∀ (e : Expr FuncId) {m : Machine} {source : Source} {sink : Sink}, S.streams m.source m.sink source sink →
    S.rel (.slot e) m (r.slot e m) (r'.slot e { m with source, sink })
  stmt : ∀ (s : Stmt FuncId) {m : Machine} {source : Source} {sink : Sink}, S.streams m.source m.sink source sink →
    S.rel (.stmt s) m (r.stmt s m) (r'.stmt s { m with source, sink })

namespace Relates

/-! ## Sequences of nodes -/

/-- The first of some values that are evaluated in order. -/
theorem head (h : S.Relates r r') (ht : S.Tracks r) (hs : S.streams m.source m.sink source sink) {e : Expr FuncId}
    {es : List (Expr FuncId)} : S.rel (.values (e :: es)) m (r.expr e m) (r'.expr e { m with source, sink }) :=
  ht.part .valuesHead rfl (h.expr e hs)

/-- The slots of positional arguments, one after the other. -/
theorem slots (h : S.Relates r r') (ht : S.Tracks r) (hs : S.streams m.source m.sink source sink) (es : List (Expr FuncId)) :
    S.rel (.slots es) m (r.slots es m) (r'.slots es { m with source, sink }) := by
  induction es generalizing m source sink with
  | nil => exact S.plain hs (.pure _)
  | cons e rest ih =>
    refine S.bind (ht.part .slotsHead rfl (h.slot e hs)) fun s m₁ _ _ hslot hs₁ => ?_
    exact S.bind (ht.part (.slotsTail hslot) rfl (ih hs₁)) fun _ m₂ _ _ _ hs₂ => S.plain hs₂ (.pure _)

/-- The slots of named arguments, one after the other. -/
theorem namedSlots (h : S.Relates r r') (ht : S.Tracks r) (hs : S.streams m.source m.sink source sink)
    (es : List (String × Expr FuncId)) :
    S.rel (.named es) m (r.namedSlots es m) (r'.namedSlots es { m with source, sink }) := by
  induction es generalizing m source sink with
  | nil => exact S.plain hs (.pure _)
  | cons e rest ih =>
    refine S.bind (ht.part .namedHead rfl (h.slot e.2 hs)) fun s m₁ _ _ hslot hs₁ => ?_
    exact S.bind (ht.part (.namedTail hslot) rfl (ih hs₁)) fun _ m₂ _ _ _ hs₂ => S.plain hs₂ (.pure _)

/-- A block, instruction by instruction: where the first one returns the rest is not work. -/
theorem block (h : S.Relates r r') (ht : S.Tracks r) (hs : S.streams m.source m.sink source sink) (code : Block FuncId) :
    S.rel (.block code) m (r.block code m) (r'.block code { m with source, sink }) := by
  induction code generalizing m source sink with
  | nil => exact S.plain hs (.pure _)
  | cons s rest ih =>
    refine S.bind (ht.part .blockHead rfl (h.stmt s hs)) fun flow m₁ _ _ hstmt hs₁ => ?_
    cases flow with
    | returned s => exact S.plain hs₁ (.pure _)
    | completed => exact ht.part (.blockTail hstmt) rfl (ih hs₁)

/-! ## Calls -/

/-- A call of a function. Where the two limits differ, one of the runs may be refused the call, and the relation has to say what
then. -/
theorem invoke (h : S.Relates r r') (ht : S.Tracks r) (hs : S.streams m.source m.sink source sink) (f : Func)
    (args : List SlotId) (kwargs : List (String × SlotId)) :
    S.rel (.invoke f args kwargs) m (Interp.invoke limit r f args kwargs m)
      (Interp.invoke limit' r' f args kwargs { m with source, sink }) := by
  show S.rel _ _ ((if limit ≤ m.depth then _ else _ : Exec SlotId) m)
    ((if limit' ≤ m.depth then _ else _ : Exec SlotId) { m with source, sink })
  by_cases hfull : limit ≤ m.depth
  · rw [if_pos hfull]
    refine S.exhausted hfull hs fun hlimit => ?_
    rw [hlimit, if_pos hfull]
  · have hfull' : ¬limit' ≤ m.depth := fun h' => hfull (Nat.le_trans S.limit_le h')
    rw [if_neg hfull, if_neg hfull']
    refine S.bind (S.plain hs (.lift (Interp.calculates_callEnv _ _ _ _ _))) fun env m₁ _ _ hlift hs₁ => ?_
    obtain ⟨henv, rfl⟩ := Exec.lift_eq_ok hlift
    refine S.bind ?_ fun flow m₂ _ _ _ hs₂ => ?_
    · rw [Interp.enter_apply, Interp.enter_apply]
      have hbody := h.block ht (m := { m₁ with env, depth := m₁.depth + 1 }) hs₁ f.code
      exact ht.call (Nat.lt_of_not_le hfull) henv hbody
    · cases flow with
      | returned s => exact S.plain hs₂ (.pure _)
      | completed => exact S.plain hs₂ (.change _)

/-- A call with its target and its arguments. -/
theorem call (h : S.Relates r r') (ht : S.Tracks r) (hs : S.streams m.source m.sink source sink) (target : Expr FuncId)
    (args : List (Expr FuncId)) (kwargs : List (String × Expr FuncId)) :
    S.rel (.call target args kwargs) m (Interp.call limit r target args kwargs m)
      (Interp.call limit' r' target args kwargs { m with source, sink }) := by
  refine S.bind (ht.part .callTarget rfl (h.expr target hs)) fun v m₁ _ _ hv hs₁ => ?_
  cases v with
  | func f =>
    refine S.bind (ht.part (.callArgs hv) rfl (h.slots ht hs₁ args)) fun slots m₂ _ _ ha hs₂ => ?_
    refine S.bind (ht.part (.callNamed hv ha) rfl (h.namedSlots ht hs₂ kwargs)) fun named m₃ _ _ hk hs₃ => ?_
    exact ht.part (.callInvoke hv ha hk) rfl (h.invoke ht hs₃ f slots named)
  | _ => exact S.plain hs₁ (.fault trivial)

/-! ## Expressions -/

/-- A line of input, after the prompt if there is one. -/
theorem input (h : S.Relates r r') (ht : S.Tracks r) (hs : S.streams m.source m.sink source sink) {w : Work}
    {span : Option Span} {prompt : Option (Expr FuncId)} (he : w.Evaluates (.input span prompt)) :
    S.rel w m (r.input prompt m) (r'.input prompt { m with source, sink }) := by
  have hread {m₁ : Machine} {source : Source} {sink : Sink} (hs₁ : S.streams m₁.source m₁.sink source sink) :
      S.rel w m ((do Exec.flush; let line ← Exec.readLine; return Value.string line : Exec Value) m₁)
        ((do Exec.flush; let line ← Exec.readLine; return Value.string line : Exec Value) { m₁ with source, sink }) :=
    S.bind (S.flush hs₁) fun _ m₂ _ _ _ hs₂ => S.bind (S.readLine hs₂) fun _ m₃ _ _ _ hs₃ => S.plain hs₃ (.pure _)
  cases prompt with
  | none => exact hread hs
  | some e =>
    refine S.bind (ht.part (.operands he) he.isInvoke (h.head ht hs)) fun v m₁ _ _ hv hs₁ => ?_
    refine S.bind (S.plain hs₁ (.lift (Value.calculates_scalarText v))) fun text m₂ _ _ hlift hs₂ => ?_
    obtain ⟨htext, rfl⟩ := Exec.lift_eq_ok hlift
    exact S.bind (ht.write (.prompt he hv htext) hs₂) fun _ m₃ _ _ _ hs₃ => hread hs₃

/-- The value of an expression, whichever way the expression is evaluated. -/
theorem exprForm (h : S.Relates r r') (ht : S.Tracks r) (hs : S.streams m.source m.sink source sink) {w : Work}
    {e : Expr FuncId} (he : w.Evaluates e) :
    S.rel w m (Interp.exprForm limit r e m) (Interp.exprForm limit' r' e { m with source, sink }) := by
  have hoperands {α : Type} {res res' : Outcome α} (hrel : S.rel (.values e.operands) m res res') : S.rel w m res res' :=
    ht.part (.operands he) he.isInvoke hrel
  cases e with
  | literal | func => exact S.plain hs (.pure _)
  | getVar _ name => exact S.plain hs ((Exec.Plain.slotOf name).bind fun s => .read s)
  | convert => exact S.bind (hoperands (h.head ht hs)) fun v m₁ _ _ _ hs₁ => S.plain hs₁ (.look fun _ => v.calculates_convert _ _)
  | len => exact S.bind (hoperands (h.head ht hs)) fun v m₁ _ _ _ hs₁ => S.plain hs₁ (.look fun _ => v.calculates_length _)
  | not => exact S.bind (hoperands (h.head ht hs)) fun v m₁ _ _ _ hs₁ => S.plain hs₁ (.lift v.calculates_negation)
  | typeOf => exact S.bind (hoperands (h.head ht hs)) fun _ m₁ _ _ _ hs₁ => S.plain hs₁ (.pure _)
  | range =>
    refine S.bind (hoperands (h.head ht hs)) fun a m₁ _ _ ha hs₁ => ?_
    exact S.bind (hoperands (ht.part (.valuesTail ha) rfl (h.head ht hs₁))) fun _ m₂ _ _ _ hs₂ => S.plain hs₂ (.pure _)
  | binary =>
    refine S.bind (hoperands (h.head ht hs)) fun a m₁ _ _ ha hs₁ => ?_
    refine S.bind (hoperands (ht.part (.valuesTail ha) rfl (h.head ht hs₁))) fun b m₂ _ _ _ hs₂ => ?_
    exact S.plain hs₂ (.look fun _ => Value.calculates_binary _ _ a b)
  | subscript =>
    refine S.bind (hoperands (h.head ht hs)) fun a m₁ _ _ ha hs₁ => ?_
    refine S.bind (hoperands (ht.part (.valuesTail ha) rfl (h.head ht hs₁))) fun b m₂ _ _ _ hs₂ => ?_
    exact S.plain hs₂ (.look fun _ => Value.calculates_subscript _ a b)
  | join =>
    refine S.bind (hoperands (h.head ht hs)) fun a m₁ _ _ ha hs₁ => ?_
    refine S.bind (hoperands (ht.part (.valuesTail ha) rfl (h.head ht hs₁))) fun b m₂ _ _ _ hs₂ => ?_
    exact S.plain hs₂ (.look fun _ => Value.calculates_join _ a b)
  | list _ items =>
    refine S.bind (ht.part (.items he) he.isInvoke (h.slots ht hs items)) fun slots m₁ _ _ _ hs₁ => ?_
    exact S.plain hs₁ ((Exec.Plain.change _).bind fun l => .pure _)
  | input _ prompt => exact h.input ht hs he
  | call _ target args kwargs =>
    refine S.bind (ht.part (.call he) he.isInvoke (h.call ht hs target args kwargs)) fun s m₁ _ _ _ hs₁ => ?_
    exact S.plain hs₁ (.read s)

/-- The slot of an expression: that of a variable or of an element, the slot that a call returns, or a new one. -/
theorem nextSlot (h : S.Relates r r') (ht : S.Tracks r) (hs : S.streams m.source m.sink source sink) (e : Expr FuncId) :
    S.rel (.slot e) m (Interp.nextSlot limit r e m) (Interp.nextSlot limit' r' e { m with source, sink }) := by
  have hform := h.exprForm ht hs (w := .slot e) rfl
  cases e with
  | getVar span name => exact S.located (.head _) (S.plain hs (.slotOf name))
  | subscript span target index =>
    refine S.bind (ht.part (.operands rfl) rfl (h.head ht hs)) fun v m₁ _ _ hv hs₁ => ?_
    refine S.bind (ht.part (.operands rfl) rfl (ht.part (.valuesTail hv) rfl (h.head ht hs₁))) fun i m₂ _ _ _ hs₂ => ?_
    exact S.located (.head _) (S.plain hs₂ (Interp.elementSlot_plain v i))
  | call span target args kwargs => exact S.located (.head _) (ht.part (.call rfl) rfl (h.call ht hs target args kwargs))
  | _ => exact S.bind (S.located (.head _) hform) fun v m₁ _ _ _ hs₁ => S.plain hs₁ (.change _)

/-! ## Instructions -/

theorem test (h : S.Relates r r') (hs : S.streams m.source m.sink source sink) (e : Expr FuncId) :
    S.rel (.value e) m (r.test e m) (r'.test e { m with source, sink }) :=
  S.bind (h.expr e hs) fun v _ _ _ _ hs₁ => S.located (.head _) (S.plain hs₁ (.look fun _ => v.calculates_truth _))

/-- A switch: the tests up to the one that holds, and the block behind it. -/
theorem switch (h : S.Relates r r') (ht : S.Tracks r) (hs : S.streams m.source m.sink source sink)
    (default : Option (Block FuncId)) (cases : List (Expr FuncId × Block FuncId)) :
    S.rel (.cases cases default) m (r.switch default cases m) (r'.switch default cases { m with source, sink }) := by
  induction cases generalizing m source sink with
  | nil =>
    cases default with
    | none => exact S.plain hs (.pure _)
    | some code => exact ht.part .casesDefault rfl (h.block ht hs code)
  | cons c rest ih =>
    refine S.bind (ht.part .casesTest rfl (h.test hs c.1)) fun holds m₁ _ _ htest hs₁ => ?_
    cases holds with
    | true => exact ht.part (.casesCode htest) rfl (h.block ht hs₁ c.2)
    | false => exact ht.part (.casesNext htest) rfl (ih hs₁)

/-- The slot that a compound assignment works on. -/
theorem targetSlot (h : S.Relates r r') (ht : S.Tracks r) (hs : S.streams m.source m.sink source sink) (span : Option Span)
    (op : ArithOp) (target value : Expr FuncId) :
    S.rel (.stmt (.compound span op target value)) m (r.targetSlot target m) (r'.targetSlot target { m with source, sink }) := by
  have hspan : target.span ∈ (Work.stmt (.compound span op target value)).spans := .tail _ (.head _)
  cases target with
  | getVar _ name => exact S.located hspan (S.plain hs (.slotOf name))
  | subscript _ container index =>
    refine S.bind (ht.part .compoundContainer rfl (h.expr container hs)) fun v m₁ _ _ hv hs₁ => ?_
    cases v with
    | list l =>
      refine S.bind (ht.part (.compoundIndex hv) rfl (h.expr index hs₁)) fun i m₂ _ _ _ hs₂ => ?_
      refine S.bind (S.plain hs₂ (.lift i.calculates_index)) fun i m₃ _ _ _ hs₃ => ?_
      exact S.located hspan (S.plain hs₃ (.look fun heap => Value.calculates_slotAt heap l i))
    | _ => exact S.located hspan (S.plain hs₁ (.fault trivial))
  | _ => exact S.located hspan (S.plain (x := Exec.fault (.notAssignable _)) hs (.fault trivial))

/-- A loop, round by round, while both runs have the same cursor. -/
theorem loop (h : S.Relates r r') (ht : S.Tracks r) (hs : S.streams m.source m.sink source sink) (var : String)
    (code : Block FuncId) (fuel : Nat) (cursor : Cursor) :
    S.rel (.pass var code cursor) m (r.loop var code fuel cursor m) (r'.loop var code fuel cursor { m with source, sink }) := by
  induction fuel generalizing cursor m source sink with
  | zero => exact S.plain hs .outOfFuel
  | succ fuel ih =>
    rcases hn : cursor.next? m.heap with ⟨_ | ⟨s, next⟩, heap⟩
    · rw [Interp.loop_of_next?_none hn, Interp.loop_of_next?_none (m := { m with source, sink }) hn]
      have hdone : S.rel (.pass var code cursor) m ((pure .completed : Exec Flow) { m with heap })
          ((pure .completed : Exec Flow) { m with heap, source, sink }) := S.plain hs (.pure _)
      exact hdone
    · rw [Interp.loop_of_next? hn, Interp.loop_of_next? (m := { m with source, sink }) hn]
      have hbody := h.block ht (m := { m with heap, env := m.env.bind var s }) hs code
      refine S.bind (ht.part (.passBody hn) rfl hbody) fun flow m₁ _ _ hb hs₁ => ?_
      cases flow with
      | returned s => exact S.plain hs₁ (.pure _)
      | completed => exact ht.part (.passNext hn hb) rfl (ih hs₁ next)

/-- All forms of instructions. -/
theorem stmtForm (h : S.Relates r r') (ht : S.Tracks r) (hs : S.streams m.source m.sink source sink) (fuel : Nat)
    (s : Stmt FuncId) :
    S.rel (.stmt s) m (Interp.stmtForm fuel r s m) (Interp.stmtForm fuel r' s { m with source, sink }) := by
  have hoperands {α : Type} {res res' : Outcome α} (hrel : S.rel (.values s.operands) m res res') : S.rel (.stmt s) m res res' :=
    ht.part .stmtOperands rfl hrel
  have hstored {α : Type} {res res' : Outcome α} {e : Expr FuncId} {m₁ : Machine} {vs : List Value} (he : s.stored = some e)
      (hret : ∀ span value, s = .ret span value → m.depth ≠ 0) (ho : r.values s.operands m = .ok vs m₁)
      (hrel : S.rel (.slot e) m₁ res res') : S.rel (.stmt s) m res res' :=
    ht.part (.stmtStored he hret ho) rfl hrel
  cases s with
  | setVar _ name value =>
    refine S.bind (hstored rfl nofun rfl (h.slot value hs)) fun s m₁ _ _ _ hs₁ => ?_
    exact S.plain hs₁ ((Exec.Plain.bindName name s).bind fun _ => .pure _)
  | compound span op target value =>
    refine S.bind (S.bind (h.targetSlot ht hs span op target value) fun s m₁ _ _ hslot hs₁ => ?_) fun _ m₂ _ _ _ hs₂ =>
      S.plain hs₂ (.pure _)
    refine S.bind (ht.part (.compoundValue hslot) rfl (h.expr value hs₁)) fun b m₂ _ _ _ hs₂ => S.plain hs₂ ?_
    exact (Exec.Plain.read s).bind fun a => (Exec.Plain.look fun _ => Value.calculates_arith _ op a b).bind fun v => .change _
  | append _ target value =>
    refine S.bind (hoperands (h.head ht hs)) fun v m₁ _ _ hv hs₁ => ?_
    refine S.bind (hstored rfl nofun (Interp.values_cons hv rfl) (h.slot value hs₁)) fun s m₂ _ _ _ hs₂ => S.plain hs₂ ?_
    exact (Exec.Plain.lift (v.calculates_listFor _)).bind fun l => (Exec.Plain.change _).bind fun _ => .pure _
  | insert _ target index value =>
    refine S.bind (hoperands (h.head ht hs)) fun v m₁ _ _ hv hs₁ => ?_
    refine S.bind (hoperands (ht.part (.valuesTail hv) rfl (h.head ht hs₁))) fun i m₂ _ _ hi hs₂ => ?_
    have hvalues : r.values [target, index] m = .ok [v, i] m₂ := Interp.values_cons hv (Interp.values_cons hi rfl)
    refine S.bind (hstored rfl nofun hvalues (h.slot value hs₂)) fun s m₃ _ _ _ hs₃ => S.plain hs₃ ?_
    exact (Exec.Plain.update fun _ => Value.calculates_insert _ v i s).bind fun _ => .pure _
  | remove _ target index =>
    refine S.bind (hoperands (h.head ht hs)) fun v m₁ _ _ hv hs₁ => ?_
    refine S.bind (hoperands (ht.part (.valuesTail hv) rfl (h.head ht hs₁))) fun i m₂ _ _ _ hs₂ => S.plain hs₂ ?_
    exact (Exec.Plain.update fun _ => Value.calculates_remove _ v i).bind fun _ => .pure _
  | print _ value =>
    refine S.bind (hoperands (h.head ht hs)) fun v m₁ _ _ hv hs₁ => ?_
    refine S.bind (S.plain hs₁ (.look fun _ => Value.calculates_render _ v)) fun text m₂ _ _ hlift hs₂ => ?_
    obtain ⟨htext, rfl⟩ := Exec.lift_eq_ok hlift
    exact S.bind (ht.write (.print hv htext) hs₂) fun _ m₃ _ _ _ hs₃ => S.plain hs₃ (.pure _)
  | cond _ cond code otherwise =>
    refine S.bind (hoperands (ht.part .valuesHead rfl (h.test hs cond))) fun holds m₁ _ _ htest hs₁ => ?_
    cases holds with
    | true => exact ht.part (.condCode htest) rfl (h.block ht hs₁ code)
    | false =>
      cases otherwise with
      | none => exact S.plain hs₁ (.pure _)
      | some other => exact ht.part (.condElse htest) rfl (h.block ht hs₁ other)
  | switch _ cases default => exact ht.part .switch rfl (h.switch ht hs default cases)
  | loop _ var list code =>
    refine S.bind (hoperands (h.head ht hs)) fun v m₁ _ _ hv hs₁ => ?_
    refine S.bind (S.plain hs₁ (.lift v.calculates_cursor)) fun cursor m₂ _ _ hlift hs₂ => ?_
    obtain ⟨hcursor, rfl⟩ := Exec.lift_eq_ok hlift
    exact ht.part (.loop hv hcursor) rfl (h.loop ht hs₂ var code fuel cursor)
  | ret span value =>
    show S.rel _ _ ((if m.depth = 0 then _ else _ : Exec Flow) m) ((if m.depth = 0 then _ else _ : Exec Flow) { m with source, sink })
    by_cases hdepth : m.depth = 0
    · rw [if_pos hdepth, if_pos hdepth]
      exact S.ret hdepth hs
    · rw [if_neg hdepth, if_neg hdepth]
      cases value with
      | none => exact S.plain hs ((Exec.Plain.change _).bind fun s => .pure _)
      | some e =>
        exact S.bind (hstored rfl (fun _ _ _ => hdepth) rfl (h.slot e hs)) fun s m₁ _ _ _ hs₁ => S.plain hs₁ (.pure _)
  | expr _ value => exact S.bind (hoperands (h.head ht hs)) fun _ m₁ _ _ _ hs₁ => S.plain hs₁ (.pure _)

/-- What is related at one level is related at the next. -/
theorem next (h : S.Relates r r') (ht : S.Tracks r) (fuel : Nat) :
    S.Relates (Interp.next limit fuel r) (Interp.next limit' fuel r') where
  expr e _ _ _ hs := S.located (.head _) (h.exprForm ht hs (w := .value e) rfl)
  slot e _ _ _ hs := h.nextSlot ht hs e
  stmt s _ _ _ hs := S.located (Work.span_mem_spans_stmt s) (h.stmtForm ht hs fuel s)

end Relates

/-- Outcomes are related at every level if the relation goes with the interpreter of each. -/
theorem interp_relates (S : Simulation limit limit') (ht : ∀ fuel, S.Tracks (interp limit fuel)) (fuel : Nat) :
    S.Relates (interp limit fuel) (interp limit' fuel) := by
  induction fuel with
  | zero =>
    refine ⟨fun _ _ _ _ hs => ?_, fun _ _ _ _ hs => ?_, fun _ _ _ _ hs => ?_⟩ <;> exact S.plain hs .outOfFuel
  | succ fuel ih => exact ih.next (ht fuel) fuel

end Simulation

end NodeScript
