import NodeScript.Proofs.Run.Regime

/-!
# Runs keep to a regime

An interpreter that keeps to a lawful regime below does so at the next level (`Regime.Obeys.next`), so every interpreter does
(`interp_obeys`). A run that is permitted leads only to work that is permitted, so the regime holds of every state that the run
passes through, and the heap got there by changes that the regime allows (`Regime.Lawful.later_of_visits`).
-/

namespace NodeScript

open Exec

namespace Regime

variable {R : Regime} {limit : Nat} {r : Interp} {m : Machine}

namespace Obeys

/-! ## Sequences of nodes -/

/-- Values that are evaluated in order keep to the regime if their expressions may run. -/
theorem values (hr : R.Obeys r) (hm : R.Ready m) {es : List (Expr FuncId)} (hes : ∀ e ∈ es, R.node (.expr e)) :
    R.Runs (r.values es) m fun _ _ => True := by
  induction es generalizing m with
  | nil => exact .pure hm trivial
  | cons e rest ih =>
    refine (hr.expr hm (hes e (.head _))).bind fun v m₁ h₁ _ => ?_
    exact (ih h₁.ready fun e' he' => hes e' (.tail _ he')).bind fun vs m₂ h₂ _ => .pure h₂.ready trivial

/-- The slots of positional arguments may be in use. -/
theorem slots (hR : R.Lawful) (hr : R.Obeys r) (hm : R.Ready m) {es : List (Expr FuncId)} (hes : ∀ e ∈ es, R.node (.expr e)) :
    R.Runs (r.slots es) m fun slots h => ∀ s ∈ slots, R.slot h s := by
  induction es generalizing m with
  | nil => exact .pure hm fun s hs => nomatch hs
  | cons e rest ih =>
    refine (hr.slot hm (hes e (.head _))).bind fun s m₁ h₁ hs => ?_
    refine (ih h₁.ready fun e' he' => hes e' (.tail _ he')).bind fun slots m₂ h₂ hslots => .pure h₂.ready fun t ht => ?_
    rcases List.mem_cons.mp ht with rfl | ht
    · exact hR.slot_changes h₂.changes hs
    · exact hslots t ht

/-- The slots of named arguments may be in use. -/
theorem namedSlots (hR : R.Lawful) (hr : R.Obeys r) (hm : R.Ready m) {es : List (String × Expr FuncId)}
    (hes : ∀ e ∈ es, R.node (.expr e.2)) : R.Runs (r.namedSlots es) m fun slots h => ∀ b ∈ slots, R.slot h b.2 := by
  induction es generalizing m with
  | nil => exact .pure hm fun s hs => nomatch hs
  | cons e rest ih =>
    refine (hr.slot hm (hes e (.head _))).bind fun s m₁ h₁ hs => ?_
    refine (ih h₁.ready fun e' he' => hes e' (.tail _ he')).bind fun slots m₂ h₂ hslots => .pure h₂.ready fun b hb => ?_
    rcases List.mem_cons.mp hb with rfl | hb
    · exact hR.slot_changes h₂.changes hs
    · exact hslots b hb

/-- A block that may run keeps to the regime, and a slot that it returns may be in use. -/
theorem block (hr : R.Obeys r) (hm : R.Ready m) {code : Block FuncId} (hcode : R.Code code) :
    R.Runs (r.block code) m fun flow h => R.FitsFlow h flow := by
  induction code generalizing m with
  | nil => exact .pure hm trivial
  | cons s rest ih =>
    refine (hr.stmt hm (hcode s (.head _))).bind fun flow m₁ h₁ hflow => ?_
    cases flow with
    | returned s => exact .pure h₁.ready hflow
    | completed => exact ih h₁.ready fun s' hs' => hcode s' (.tail _ hs')

/-- A test that may run keeps to the regime. -/
theorem test (hr : R.Obeys r) (hm : R.Ready m) {e : Expr FuncId} (he : R.node (.expr e)) :
    R.Runs (r.test e) m fun _ _ => True := by
  refine (hr.expr hm he).bind fun v m₁ h₁ _ => ?_
  exact (Runs.look h₁.ready fun _ _ => trivial).located e.span

/-- The slot that an assignment works on may be in use. -/
theorem targetSlot (hR : R.Lawful) (hr : R.Obeys r) (hm : R.Ready m) {target : Expr FuncId} (ht : R.node (.expr target)) :
    R.Runs (r.targetSlot target) m fun s h => R.slot h s := by
  cases target with
  | getVar span name => exact (Runs.slotOf hm name).located span
  | subscript span container index =>
    refine (hr.expr hm (hR.child ht (.head _))).bind fun v m₁ h₁ hv => ?_
    cases v with
    | list l =>
      refine (hr.expr h₁.ready (hR.child ht (.tail _ (.head _)))).bind fun i m₂ h₂ _ => ?_
      refine (Runs.lift h₂.ready (P := fun _ _ => True) fun _ _ => trivial).bind fun i m₃ h₃ _ => ?_
      refine (Runs.look h₃.ready fun s hs => ?_).located span
      have hl : R.list m₃.heap l := hR.list_changes (h₂.trans h₃).changes hv
      exact (hR.closed h₃.ready.heap).items hl (Heap.mem_items_of_slotAt hs)
    | _ => exact (Runs.fault h₁.ready _).located span
  | _ => exact (Runs.fault hm _).located _

end Obeys

/-! ## From work to work -/

/-- Permitted work leads to permitted work, and the regime still holds there. -/
theorem Obeys.leads (hR : R.Lawful) (hr : R.Obeys r) {w w' : Work} {m' : Machine} (h : Leads limit r w m w' m')
    (hm : R.Ready m) (hw : R.Permits m.heap w) : R.Later m m' ∧ R.Permits m'.heap w' := by
  -- Where the work before has a result, the state after it is a later one.
  have later {α : Type} {x : Exec α} {post : α → Heap → Prop} {m₁ m₂ : Machine} {a : α} (hx : R.Runs x m₁ post)
      (ha : x m₁ = .ok a m₂) : R.Later m₁ m₂ := by
    have hl := hx.later
    rwa [after, ha] at hl
  cases h with
  | operands he => exact ⟨hm.later, fun x hx => hR.child (hw.of_evaluates he) (Expr.operands_mem_children hx)⟩
  | items he => exact ⟨hm.later, fun x hx => hR.child (hw.of_evaluates he) (List.mem_map_of_mem hx)⟩
  | call he => exact ⟨hm.later, hR.permits_call (hw.of_evaluates he)⟩
  | valuesHead | slotsHead | namedHead => exact ⟨hm.later, hw _ (.head _)⟩
  | valuesTail he => exact ⟨later (hr.expr hm (hw _ (.head _))) he, fun x hx => hw x (.tail _ hx)⟩
  | slotsTail he | namedTail he => exact ⟨later (hr.slot hm (hw _ (.head _))) he, fun x hx => hw x (.tail _ hx)⟩
  | callTarget => exact ⟨hm.later, hw.1⟩
  | callArgs ht => exact ⟨later (hr.expr hm hw.1) ht, hw.2.1⟩
  | callNamed ht ha =>
    have h₁ := later (hr.expr hm hw.1) ht
    exact ⟨h₁.trans (later (hr.slots hR h₁.ready hw.2.1) ha), hw.2.2⟩
  | callInvoke ht ha hk =>
    have h₁ := later (hr.expr hm hw.1) ht
    have h₂ := later (hr.slots hR h₁.ready hw.2.1) ha
    have h₃ := later (hr.namedSlots hR h₂.ready hw.2.2) hk
    refine ⟨(h₁.trans h₂).trans h₃, ?_, fun s hs => ?_, (hr.namedSlots hR h₂.ready hw.2.2).result _ _ hk⟩
    · exact (hr.expr hm hw.1).result _ _ ht
    · exact hR.slot_changes h₃.changes ((hr.slots hR h₁.ready hw.2.1).result _ _ ha s hs)
  | body hd he => exact ⟨⟨⟨hm.heap, hm.env.callEnv hw.2.1 hw.2.2 he⟩, .refl⟩, hw.1⟩
  | stmtOperands => exact ⟨hm.later, fun x hx => hR.child hw (Stmt.operands_mem_children hx)⟩
  | stmtStored he _ ho =>
    refine ⟨later (hr.values hm fun x hx => hR.child hw (Stmt.operands_mem_children hx)) ho, ?_⟩
    exact hR.child hw (Stmt.stored_mem_children he)
  | compoundContainer =>
    have htarget := hR.child hw (.head _)
    exact ⟨hm.later, hR.child htarget (.head _)⟩
  | compoundIndex hc =>
    have htarget := hR.child hw (.head _)
    exact ⟨later (hr.expr hm (hR.child htarget (.head _))) hc, hR.child htarget (.tail _ (.head _))⟩
  | compoundValue ht =>
    exact ⟨later (hr.targetSlot hR hm (hR.child hw (.head _))) ht, hR.child hw (.tail _ (.head _))⟩
  | blockHead => exact ⟨hm.later, hw _ (.head _)⟩
  | blockTail hs => exact ⟨later (hr.stmt hm (hw _ (.head _))) hs, fun s' hs' => hw s' (.tail _ hs')⟩
  | condCode ht =>
    refine ⟨later (hr.test hm (hR.child hw (.head _))) ht, fun s hs => hR.child hw ?_⟩
    exact .tail _ (List.mem_append_left _ (List.mem_map_of_mem hs))
  | condElse ht =>
    refine ⟨later (hr.test hm (hR.child hw (.head _))) ht, fun s hs => hR.child hw ?_⟩
    exact .tail _ (List.mem_append_right _ (List.mem_map_of_mem hs))
  | switch => exact ⟨hm.later, hR.permits_cases hw⟩
  | casesTest => exact ⟨hm.later, (hw.1 _ (.head _)).1⟩
  | casesCode ht => exact ⟨later (hr.test hm (hw.1 _ (.head _)).1) ht, (hw.1 _ (.head _)).2⟩
  | casesNext ht => exact ⟨later (hr.test hm (hw.1 _ (.head _)).1) ht, fun c hc => hw.1 c (.tail _ hc), hw.2⟩
  | casesDefault => exact ⟨hm.later, hw.2⟩
  | loop hl hc =>
    have hlist := hR.child hw (.head _)
    refine ⟨later (hr.expr hm hlist) hl, fun s hs => hR.child hw (.tail _ (List.mem_map_of_mem hs)), ?_⟩
    exact ((hr.expr hm hlist).result _ _ hl).cursor hc
  | passBody hn => exact ⟨hR.later_next? hm hw.2 hn _, hw.1⟩
  | passNext hn hb =>
    have hbody := later (hr.block (hR.later_next? hm hw.2 hn _).ready hw.1) hb
    refine ⟨(hR.later_next? hm hw.2 hn _).trans hbody, hw.1, ?_⟩
    exact hR.fitsCursor_changes hbody.changes (hR.fits_next? hm.heap hw.2 hn).2

namespace Obeys

/-! ## Calls -/

/-- A call keeps to the regime: its body may run, in an environment with slots that may be in use. -/
theorem invoke (hR : R.Lawful) (hr : R.Obeys r) (hm : R.Ready m) {f : Func} {args : List SlotId} {kwargs : List (String × SlotId)}
    (hw : R.Permits m.heap (.invoke f args kwargs)) : R.Runs (Interp.invoke limit r f args kwargs) m fun s h => R.slot h s := by
  refine .get ?_
  split
  · exact .fault hm _
  · refine (Runs.lift hm (P := fun env h => env.Within (R.slot h)) fun env henv => ?_).bind fun env m₁ h₁ henv => ?_
    · exact hm.env.callEnv hw.2.1 hw.2.2 henv
    · have hbody := hr.block (m := { m₁ with env := env, depth := m₁.depth + 1 }) ⟨h₁.ready.heap, henv⟩ hw.1
      refine (Runs.enter hR h₁.ready hbody).bind fun flow m₂ h₂ hflow => ?_
      cases flow with
      | returned s => exact .pure h₂.ready hflow
      | completed => exact .alloc hR h₂.ready trivial

/-- A call with its target and its arguments keeps to the regime, and its result may be in use. -/
theorem call (hR : R.Lawful) (hr : R.Obeys r) (hm : R.Ready m) {target : Expr FuncId} {args : List (Expr FuncId)}
    {kwargs : List (String × Expr FuncId)} (hw : R.Permits m.heap (.call target args kwargs)) :
    R.Runs (Interp.call limit r target args kwargs) m fun s h => R.slot h s := by
  refine (hr.expr hm hw.1).bind fun v m₁ h₁ hv => ?_
  cases v with
  | func f =>
    refine (hr.slots hR h₁.ready hw.2.1).bind fun slots m₂ h₂ hslots => ?_
    refine (hr.namedSlots hR h₂.ready hw.2.2).bind fun named m₃ h₃ hnamed => ?_
    exact hr.invoke hR h₃.ready ⟨hv, fun s hs => hR.slot_changes h₃.changes (hslots s hs), hnamed⟩
  | _ => exact .fault h₁.ready _

/-! ## Expressions -/

/-- A line of input is a string, which may be in use with any heap. -/
theorem input (hr : R.Obeys r) (hm : R.Ready m) {prompt : Option (Expr FuncId)} (hp : ∀ e ∈ prompt.toList, R.node (.expr e)) :
    R.Runs (r.input prompt) m fun v h => R.Fits h v := by
  have hread {m : Machine} (hm : R.Ready m) :
      R.Runs (do Exec.flush; let line ← Exec.readLine; return Value.string line) m fun v h => R.Fits h v := by
    refine (Runs.flush hm).bind fun _ m₁ h₁ _ => ?_
    exact (Runs.readLine h₁.ready).bind fun _ m₂ h₂ _ => .pure h₂.ready trivial
  cases prompt with
  | none => exact hread hm
  | some e =>
    refine (hr.expr hm (hp e (.head _))).bind fun v m₁ h₁ _ => ?_
    refine (Runs.lift h₁.ready (P := fun _ _ => True) fun _ _ => trivial).bind fun text m₂ h₂ _ => ?_
    exact (Runs.write h₂.ready text).bind fun _ m₃ h₃ _ => hread h₃.ready

/-- The value of an expression, whichever way the expression is evaluated. -/
theorem exprForm (hR : R.Lawful) (hr : R.Obeys r) (hm : R.Ready m) {e : Expr FuncId} (he : R.node (.expr e)) :
    R.Runs (Interp.exprForm limit r e) m fun v h => R.Fits h v := by
  have hoperand (x : Expr FuncId) (hx : x ∈ e.operands) : R.node (.expr x) := hR.child he (Expr.operands_mem_children hx)
  cases e with
  | literal _ value => exact .pure hm (.of_isScalar (Value.literal_isScalar value))
  | func _ label params code => exact .pure hm fun s hs => hR.child he (List.mem_map_of_mem hs)
  | getVar _ name => exact (Runs.slotOf hm name).bind fun s m₁ h₁ hs => .read hR h₁.ready hs
  | convert _ goal value =>
    refine (hr.expr hm (hoperand _ (.head _))).bind fun v m₁ h₁ _ => ?_
    exact .look h₁.ready fun w hw => .of_isScalar (Value.convert_isScalar hw)
  | len _ value =>
    refine (hr.expr hm (hoperand _ (.head _))).bind fun v m₁ h₁ _ => ?_
    exact .look h₁.ready fun w hw => .of_isScalar (Value.length_isScalar hw)
  | not _ value =>
    refine (hr.expr hm (hoperand _ (.head _))).bind fun v m₁ h₁ _ => ?_
    exact .lift h₁.ready fun w hw => .of_isScalar (Value.negation_isScalar hw)
  | typeOf _ value => exact (hr.expr hm (hoperand _ (.head _))).bind fun v m₁ h₁ _ => .pure h₁.ready trivial
  | range _ start stop =>
    refine (hr.expr hm (hoperand _ (.head _))).bind fun a m₁ h₁ ha => ?_
    refine (hr.expr h₁.ready (hoperand _ (.tail _ (.head _)))).bind fun b m₂ h₂ hb => .pure h₂.ready ?_
    exact ⟨hR.fits_changes h₂.changes ha, hb⟩
  | binary _ op left right =>
    refine (hr.expr hm (hoperand _ (.head _))).bind fun a m₁ h₁ _ => ?_
    refine (hr.expr h₁.ready (hoperand _ (.tail _ (.head _)))).bind fun b m₂ h₂ _ => ?_
    exact .look h₂.ready fun w hw => .of_isScalar (Value.binary_isScalar hw)
  | join _ target separator =>
    refine (hr.expr hm (hoperand _ (.head _))).bind fun a m₁ h₁ _ => ?_
    refine (hr.expr h₁.ready (hoperand _ (.tail _ (.head _)))).bind fun b m₂ h₂ _ => ?_
    exact .look h₂.ready fun w hw => .of_isScalar (Value.join_isScalar hw)
  | subscript _ target index =>
    refine (hr.expr hm (hoperand _ (.head _))).bind fun v m₁ h₁ hv => ?_
    refine (hr.expr h₁.ready (hoperand _ (.tail _ (.head _)))).bind fun i m₂ h₂ _ => .look h₂.ready fun w hw => ?_
    exact hR.fits_subscript h₂.ready.heap (hR.fits_changes h₂.changes hv) hw
  | list _ items =>
    refine (hr.slots hR hm fun x hx => hR.child he (List.mem_map_of_mem hx)).bind fun slots m₁ h₁ hslots => ?_
    refine (Runs.change hR h₁.ready (P := fun l h => R.list h l) (.single (.newList fun s hs => ?_)) ?_).bind
      fun l m₂ h₂ hl => .pure h₂.ready hl
    · exact hslots s (by simpa using hs)
    · exact hR.newList _ h₁.ready.heap
  | input _ prompt => exact hr.input hm hoperand
  | call span target args kwargs =>
    exact (hr.call hR hm (hR.permits_call he)).bind fun s m₁ h₁ hs => .read hR h₁.ready hs

/-- The slot of an element of a list that may be in use may be in use. -/
theorem elementSlot_runs (hR : R.Lawful) (hm : R.Ready m) {target index : Value} (ht : R.Fits m.heap target) :
    R.Runs (Interp.elementSlot target index) m fun s h => R.slot h s := by
  unfold Interp.elementSlot
  split
  · refine .look hm fun s hs => ?_
    obtain ⟨i, -, hs⟩ := Value.of_bind_eq_ok hs
    exact (hR.closed hm.heap).items ht (Heap.mem_items_of_slotAt hs)
  · refine (Runs.look hm (P := fun v h => R.Fits h v) fun v hv => ?_).bind fun v m₁ h₁ hv => .alloc hR h₁.ready hv
    exact hR.fits_subscript hm.heap ht hv

/-- The slot of an expression may be in use, if the expression may run. -/
theorem nextSlot (hR : R.Lawful) (hr : R.Obeys r) (hm : R.Ready m) {e : Expr FuncId} (he : R.node (.expr e)) :
    R.Runs (Interp.nextSlot limit r e) m fun s h => R.slot h s := by
  have hform : R.Runs (Exec.located e.span (Interp.exprForm limit r e)) m fun v h => R.Fits h v :=
    (hr.exprForm hR hm he).located e.span
  cases e with
  | getVar span name => exact (Runs.slotOf hm name).located span
  | subscript span target index =>
    refine (hr.expr hm (hR.child he (.head _))).bind fun v m₁ h₁ hv => ?_
    refine (hr.expr h₁.ready (hR.child he (.tail _ (.head _)))).bind fun i m₂ h₂ _ => ?_
    exact (elementSlot_runs hR h₂.ready (hR.fits_changes h₂.changes hv)).located span
  | call span target args kwargs => exact (hr.call hR hm (hR.permits_call he)).located span
  | _ => exact hform.bind fun v m₁ h₁ hv => .alloc hR h₁.ready hv

/-! ## Instructions -/

/-- A compound assignment writes the result of arithmetic, which is one of the five changes. -/
theorem compound (hR : R.Lawful) (hr : R.Obeys r) (hm : R.Ready m) {span : Option Span} {op : ArithOp}
    {target value : Expr FuncId} (hs : R.node (.stmt (.compound span op target value))) : R.Runs (r.compound op target value) m fun _ _ => True := by
  refine (hr.targetSlot hR hm (hR.child hs (.head _))).bind fun t m₁ h₁ ht => ?_
  refine (hr.expr h₁.ready (hR.child hs (.tail _ (.head _)))).bind fun b m₂ h₂ _ => ?_
  have ht₂ := hR.slot_changes h₂.changes ht
  refine (Runs.read hR h₂.ready ht₂).bind fun a m₃ h₃ _ => ?_
  refine (Runs.look h₃.ready (P := fun v _ => v.type ∈ [.int, .float, .string]) fun v hv => Value.arith_type hv).bind
    fun v m₄ h₄ hv => ?_
  have ht₄ := hR.slot_changes (h₃.trans h₄).changes ht₂
  exact .change hR h₄.ready (.single (.write ⟨_, hs, rfl⟩ ht₄ hv)) trivial

/-- A switch keeps to the regime in its tests and in the block that it comes to. -/
theorem switch (hr : R.Obeys r) (hm : R.Ready m) {default : Option (Block FuncId)} {cases : List (Expr FuncId × Block FuncId)}
    (hw : R.Permits m.heap (.cases cases default)) : R.Runs (r.switch default cases) m fun flow h => R.FitsFlow h flow := by
  induction cases generalizing m with
  | nil =>
    cases default with
    | none => exact .pure hm trivial
    | some code => exact hr.block hm hw.2
  | cons c rest ih =>
    obtain ⟨htest, hcode⟩ := hw.1 c (.head _)
    refine (hr.test hm htest).bind fun holds m₁ h₁ _ => ?_
    cases holds with
    | true => exact hr.block h₁.ready hcode
    | false => exact ih h₁.ready ⟨fun c' hc' => hw.1 c' (.tail _ hc'), hw.2⟩

/-- A loop keeps to the regime from round to round: what is left of the pass may be in use after each of them. -/
theorem loop (hR : R.Lawful) (hr : R.Obeys r) (hm : R.Ready m) {var : String} {code : Block FuncId} (fuel : Nat) {cursor : Cursor}
    (hw : R.Permits m.heap (.pass var code cursor)) :
    R.Runs (r.loop var code fuel cursor) m fun flow h => R.FitsFlow h flow := by
  induction fuel generalizing cursor m with
  | zero => exact .outOfFuel hm
  | succ fuel ih =>
    rcases hn : cursor.next? m.heap with ⟨_ | ⟨s, next⟩, heap⟩
    · have hlater := hm.change hR (Access.changes_next? hn)
      exact .of_eq (y := pure .completed) hlater (Interp.loop_of_next?_none hn) (.pure hlater.ready trivial)
    · have hbound := hR.later_next? hm hw.2 hn var
      refine .of_eq hbound (Interp.loop_of_next? hn) ((hr.block hbound.ready hw.1).bind fun flow m₁ h₁ hflow => ?_)
      cases flow with
      | returned s => exact .pure h₁.ready hflow
      | completed => exact ih h₁.ready ⟨hw.1, hR.fitsCursor_changes h₁.changes (hR.fits_next? hm.heap hw.2 hn).2⟩

/-- All forms of instructions keep to the regime where they may run. -/
theorem stmtForm (hR : R.Lawful) (hr : R.Obeys r) (fuel : Nat) (hm : R.Ready m) {s : Stmt FuncId} (hs : R.node (.stmt s)) :
    R.Runs (Interp.stmtForm fuel r s) m fun flow h => R.FitsFlow h flow := by
  have hoperand (x : Expr FuncId) (hx : x ∈ s.operands) : R.node (.expr x) := hR.child hs (Stmt.operands_mem_children hx)
  have hstored (x : Expr FuncId) (hx : s.stored = some x) : R.node (.expr x) := hR.child hs (Stmt.stored_mem_children hx)
  cases s with
  | setVar _ name value =>
    refine (hr.slot hm (hstored _ rfl)).bind fun t m₁ h₁ ht => ?_
    exact (Runs.bindName h₁.ready name ht).bind fun _ m₂ h₂ _ => .pure h₂.ready trivial
  | compound _ op target value => exact (hr.compound hR hm hs).bind fun _ m₁ h₁ _ => .pure h₁.ready trivial
  | append _ target value =>
    refine (hr.expr hm (hoperand _ (.head _))).bind fun v m₁ h₁ hv => ?_
    refine (hr.slot h₁.ready (hstored _ rfl)).bind fun t m₂ h₂ ht => ?_
    refine (Runs.lift h₂.ready (P := fun l h => R.list h l ∧ R.slot h t) fun l hl => ⟨?_, ht⟩).bind fun l m₃ h₃ ⟨hl, ht⟩ => ?_
    · exact (hR.fits_changes h₂.changes hv).listFor hl
    · refine (Runs.change hR h₃.ready (P := fun _ _ => True) (.single ?_) trivial).bind fun _ m₄ h₄ _ => .pure h₄.ready trivial
      exact .grow ⟨_, hs, rfl⟩ hl ht fun items u hu => (Array.mem_push.mp hu).symm
  | insert _ target index value =>
    refine (hr.expr hm (hoperand _ (.head _))).bind fun v m₁ h₁ hv => ?_
    refine (hr.expr h₁.ready (hoperand _ (.tail _ (.head _)))).bind fun i m₂ h₂ _ => ?_
    refine (hr.slot h₂.ready (hstored _ rfl)).bind fun t m₃ h₃ ht => ?_
    refine (Runs.update hR h₃.ready fun heap hheap => ?_).bind fun _ m₄ h₄ _ => .pure h₄.ready trivial
    exact .single (Access.change_insert ⟨_, hs, rfl⟩ (hR.fits_changes (h₂.trans h₃).changes hv) ht hheap)
  | remove _ target index =>
    refine (hr.expr hm (hoperand _ (.head _))).bind fun v m₁ h₁ hv => ?_
    refine (hr.expr h₁.ready (hoperand _ (.tail _ (.head _)))).bind fun i m₂ h₂ _ => ?_
    refine (Runs.update hR h₂.ready fun heap hheap => ?_).bind fun _ m₃ h₃ _ => .pure h₃.ready trivial
    exact .single (Access.change_remove ⟨_, hs, rfl⟩ (hR.fits_changes h₂.changes hv) hheap)
  | print _ value =>
    refine (hr.expr hm (hoperand _ (.head _))).bind fun v m₁ h₁ _ => ?_
    refine (Runs.look h₁.ready (P := fun _ _ => True) fun _ _ => trivial).bind fun text m₂ h₂ _ => ?_
    exact (Runs.write h₂.ready _).bind fun _ m₃ h₃ _ => .pure h₃.ready trivial
  | cond _ test code otherwise =>
    refine (hr.test hm (hoperand _ (.head _))).bind fun holds m₁ h₁ _ => ?_
    cases holds with
    | true =>
      refine hr.block h₁.ready fun s' hs' => hR.child hs ?_
      exact .tail _ (List.mem_append_left _ (List.mem_map_of_mem hs'))
    | false =>
      cases otherwise with
      | none => exact .pure h₁.ready trivial
      | some other =>
        refine hr.block h₁.ready fun s' hs' => hR.child hs ?_
        exact .tail _ (List.mem_append_right _ (List.mem_map_of_mem hs'))
  | switch _ cases default => exact hr.switch hm (hR.permits_cases hs)
  | loop _ var list code =>
    refine (hr.expr hm (hoperand _ (.head _))).bind fun v m₁ h₁ hv => ?_
    refine (Runs.lift h₁.ready (P := fun cursor h => R.FitsCursor h cursor) fun cursor hcursor => hv.cursor hcursor).bind
      fun cursor m₂ h₂ hcursor => ?_
    exact hr.loop hR h₂.ready fuel ⟨fun s' hs' => hR.child hs (.tail _ (List.mem_map_of_mem hs')), hcursor⟩
  | ret _ value =>
    refine .get ?_
    split
    · exact .fault hm _
    · cases value with
      | none => exact (Runs.alloc hR hm (v := .void) trivial).bind fun t m₁ h₁ ht => .pure h₁.ready ht
      | some e => exact (hr.slot hm (hstored _ rfl)).bind fun t m₁ h₁ ht => .pure h₁.ready ht
  | expr _ value => exact (hr.expr hm (hoperand _ (.head _))).bind fun _ m₁ h₁ _ => .pure h₁.ready trivial

/-- What keeps to the regime at one level does so at the next. -/
theorem next (hR : R.Lawful) (hr : R.Obeys r) (limit fuel : Nat) : R.Obeys (Interp.next limit fuel r) where
  expr hm he := (hr.exprForm hR hm he).located _
  slot hm he := hr.nextSlot hR hm he
  stmt hm hs := (hr.stmtForm hR fuel hm hs).located _

end Obeys

end Regime

/-! ## Whole runs -/

/-- Every interpreter keeps to a lawful regime. -/
theorem interp_obeys {R : Regime} (hR : R.Lawful) (limit fuel : Nat) : R.Obeys (interp limit fuel) := by
  induction fuel with
  | zero => exact ⟨fun hm _ => .outOfFuel hm, fun hm _ => .outOfFuel hm, fun hm _ => .outOfFuel hm⟩
  | succ fuel ih => exact ih.next hR limit fuel

namespace Regime

variable {R : Regime} {limit : Nat} {m m' : Machine} {w w' : Work}

/-- A run that is permitted reaches only later states and only work that is permitted there. -/
theorem Lawful.later_of_reaches (hR : R.Lawful) (hm : R.Ready m) (hw : R.Permits m.heap w) (h : Reaches limit w m w' m') :
    R.Later m m' ∧ R.Permits m'.heap w' := by
  induction h with
  | start => exact ⟨hm.later, hw⟩
  | step fuel _ hl ih =>
    obtain ⟨hlater, hpermits⟩ := (interp_obeys hR limit fuel).leads hR hl ih.1.ready ih.2
    exact ⟨ih.1.trans hlater, hpermits⟩

/-- Permitted work leaves a later state. -/
theorem Lawful.later_after (hR : R.Lawful) (hm : R.Ready m) (hw : R.Permits m.heap w) (limit fuel : Nat) :
    R.Later m (w.after limit fuel m) := by
  have hr := interp_obeys hR limit fuel
  cases w with
  | value e => exact (hr.expr hm hw).later
  | slot e => exact (hr.slot hm hw).later
  | stmt s => exact (hr.stmt hm hw).later
  | values es => exact (hr.values hm hw).later
  | slots es => exact (hr.slots hR hm hw).later
  | named es => exact (hr.namedSlots hR hm hw).later
  | call target args kwargs => exact (hr.call hR hm hw).later
  | invoke f args kwargs => exact (hr.invoke hR hm hw).later
  | block code => exact (hr.block hm hw).later
  | cases choices default => exact (hr.switch hm hw).later
  | pass var code cursor => exact (hr.loop hR hm fuel hw).later

/-- The regime holds of every state that a permitted run passes through. -/
theorem Lawful.later_of_visits (hR : R.Lawful) (hm : R.Ready m) (hw : R.Permits m.heap w) (h : Visits limit w m m') :
    R.Later m m' := by
  cases h with
  | reached h => exact (hR.later_of_reaches hm hw h).1
  | done h fuel =>
    obtain ⟨hlater, hpermits⟩ := hR.later_of_reaches hm hw h
    exact hlater.trans (hR.later_after hlater.ready hpermits limit fuel)

end Regime

end NodeScript
