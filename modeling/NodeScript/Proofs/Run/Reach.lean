import NodeScript.Proofs.Run.Compare

/-!
# The states that a run reaches

Nothing is missing from the work that a run reaches: what an interpreter does with work that is not reached makes no difference
(`interp_agreeOn_interpWithin`). With what a run does to the names that are bound, and how deep it goes, this is scope isolation
(`scope_isolation`).
-/

namespace NodeScript

/-! ## A run depends on nothing but what it reaches -/

/-- Steps that do the same are followed by steps that do the same. -/
theorem Exec.bind_agree {α β : Type} {x x' : Exec α} {f f' : α → Exec β} {m : Machine} (hx : x m = x' m)
    (hf : ∀ a m', x m = .ok a m' → f a m' = f' a m') : (x >>= f) m = (x' >>= f') m := by
  rw [Exec.bind_apply, Exec.bind_apply, ← hx]
  cases hxm : x m with
  | ok a m' => exact hf a m' hxm
  | error e m' => rfl

/-- Outcomes that are equal. -/
def OutcomeRelation.equality (limit : Nat) (P : Work → Machine → Prop) : OutcomeRelation limit limit where
  work := P
  rel res res' := res = res'
  limit_le := Nat.le_refl _
  same _ := rfl
  bind := Exec.bind_agree
  located _ _ h := by simp only [Exec.located, h]
  enter h := by simp only [Interp.enter, h]
  exhausted _ h := (h rfl).symm

/-- Two interpreters do the same with the work that has a property. -/
structure Interp.AgreeOn (P : Work → Machine → Prop) (r r' : Interp) : Prop where
  expr : ∀ e m, P (.value e) m → r.expr e m = r'.expr e m
  slot : ∀ e m, P (.slot e) m → r.slot e m = r'.slot e m
  stmt : ∀ s m, P (.stmt s) m → r.stmt s m = r'.stmt s m

namespace Interp.AgreeOn

variable {limit : Nat} {P : Work → Machine → Prop} {r r' : Interp}

theorem relates (h : AgreeOn P r r') : (OutcomeRelation.equality limit P).Relates r r' :=
  ⟨h.expr, h.slot, h.stmt⟩

/-- Interpreters that agree do the same with a block that has the property. -/
theorem block (h : AgreeOn P r r') (hP : Inherited limit r P) {code : Block FuncId} {m : Machine} (hw : P (.block code) m) :
    r.block code m = r'.block code m :=
  h.relates.block hP hw

/-- Interpreters that agree do so at one level more. -/
theorem next (h : AgreeOn P r r') (hP : Inherited limit r P) (fuel : Nat) :
    AgreeOn P (Interp.next limit fuel r) (Interp.next limit fuel r') :=
  have hnext := h.relates.next hP fuel
  ⟨hnext.expr, hnext.slot, hnext.stmt⟩

end Interp.AgreeOn

open Classical in
/-- An interpreter that leaves all work without a property to another one. -/
noncomputable def Interp.within (P : Work → Machine → Prop) (other r : Interp) : Interp where
  expr e m := if P (.value e) m then r.expr e m else other.expr e m
  slot e m := if P (.slot e) m then r.slot e m else other.slot e m
  stmt s m := if P (.stmt s) m then r.stmt s m else other.stmt s m

/-- The interpreter that, at every level, leaves all work without a property to another one. -/
noncomputable def interpWithin (limit : Nat) (P : Work → Machine → Prop) (other : Interp) : Nat → Interp
  | 0 => .within P other .exhausted
  | fuel + 1 => .within P other (Interp.next limit fuel (interpWithin limit P other fuel))

/-- An interpreter that leaves other work to another one agrees with itself on the work that has the property. -/
theorem Interp.agreeOn_within (P : Work → Machine → Prop) (other r : Interp) : AgreeOn P r (.within P other r) where
  expr _ _ hw := (if_pos hw).symm
  slot _ _ hw := (if_pos hw).symm
  stmt _ _ hw := (if_pos hw).symm

/-- Agreement goes on from one interpreter to the next. -/
theorem Interp.AgreeOn.trans {P : Work → Machine → Prop} {r₁ r₂ r₃ : Interp} (h : AgreeOn P r₁ r₂) (h' : AgreeOn P r₂ r₃) :
    AgreeOn P r₁ r₃ where
  expr e m hw := (h.expr e m hw).trans (h'.expr e m hw)
  slot e m hw := (h.slot e m hw).trans (h'.slot e m hw)
  stmt s m hw := (h.stmt s m hw).trans (h'.stmt s m hw)

/-- What is done with work without a property does not matter where work with it leads to nothing else. -/
theorem interp_agreeOn_interpWithin {limit : Nat} {P : Work → Machine → Prop} (hP : ∀ fuel, Inherited limit (interp limit fuel) P)
    (other : Interp) (fuel : Nat) : Interp.AgreeOn P (interp limit fuel) (interpWithin limit P other fuel) := by
  induction fuel with
  | zero => exact Interp.agreeOn_within P other .exhausted
  | succ fuel ih => exact (ih.next (hP fuel) fuel).trans (Interp.agreeOn_within P other _)

/-! ## Scope isolation -/

/-- What a run does to the names that are bound, and how deep it goes. However it ends, the evaluation of an expression, to its
value or to a slot, leaves the environment and the depth as they were; the execution of a block leaves the depth, unbinds no
name, and leaves every name to its slot that is not assigned to in the block outside function bodies; and no state that is
reached from depth zero is deeper than the limit. The states that are reached are all there are: a run is the same whatever another
interpreter does, at any level, with work that is not reached. -/
theorem scope_isolation (limit : Nat) :
    (∀ fuel e m, SameScope m (((interp limit fuel).expr e).after m) ∧ SameScope m (((interp limit fuel).slot e).after m)) ∧
    (∀ fuel code m, Rebinds (Stmt.assignedAll code) m (((interp limit fuel).block code).after m)) ∧
    (∀ w m w' m', m.depth = 0 → Reaches limit w m w' m' → m'.depth ≤ limit) ∧
    (∀ other fuel m,
      (∀ e, (interpWithin limit (Reaches limit (.value e) m) other fuel).expr e m = (interp limit fuel).expr e m) ∧
      (∀ e, (interpWithin limit (Reaches limit (.slot e) m) other fuel).slot e m = (interp limit fuel).slot e m) ∧
      (∀ code, (interpWithin limit (Reaches limit (.block code) m) other fuel).block code m =
        (interp limit fuel).block code m)) := by
  refine ⟨fun fuel e m => ?_, fun fuel code m => ?_, fun w m w' m' hm h => ?_,
    fun other fuel m => ⟨fun e => ?_, fun e => ?_, fun code => ?_⟩⟩
  · exact ⟨(interp_scoped limit fuel).expr e m, (interp_scoped limit fuel).slot e m⟩
  · exact (interp_scoped limit fuel).block code m
  · exact h.depth_le (by omega)
  · exact ((interp_agreeOn_interpWithin (Reaches.inherited _ m) other fuel).expr e m .start).symm
  · exact ((interp_agreeOn_interpWithin (Reaches.inherited _ m) other fuel).slot e m .start).symm
  · exact ((interp_agreeOn_interpWithin (Reaches.inherited _ m) other fuel).block (Reaches.inherited _ m fuel) .start).symm

/-- A call of a function with an empty body. -/
def emptyCall : Expr FuncId := .call none (.func none 0 [] []) [] []

/-- A call of the empty function reaches its body at depth one, which is the limit. -/
theorem emptyCall_reaches_depth_one :
    ∃ m, Reaches 1 (.value emptyCall) ⟨.empty, .empty, ⟨[]⟩, .unlimited, 0⟩ (.block []) m ∧ m.depth = 1 ∧ m.depth ≤ 1 := by
  have hstart : Reaches 1 (.value emptyCall) ⟨.empty, .empty, ⟨[]⟩, .unlimited, 0⟩ (.value emptyCall) _ := .start
  have hinvoke := (hstart.step 1 (.call rfl)).step 1 (.callInvoke rfl rfl rfl)
  have hbody := hinvoke.step 1 (.body Nat.zero_lt_one rfl)
  exact ⟨_, hbody, rfl, (scope_isolation 1).2.2.1 _ _ _ _ rfl hbody⟩

end NodeScript
