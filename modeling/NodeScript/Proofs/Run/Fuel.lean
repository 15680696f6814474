import NodeScript.Proofs.Run.Compare

/-!
# More fuel changes nothing

What an interpreter does within its fuel it does in the same way with any larger amount of fuel (`interp_fuel_le`): the outcomes are
equal unless the first one came from a lack of fuel. Fuel bounds both how deep nodes are nested and how often a loop goes round, so
one unit more is first given to the nodes inside and then to the loop.
-/

namespace NodeScript

/-- Outcomes that are equal unless the first run had too little fuel. -/
def OutcomeRelation.untilFuel (limit : Nat) : OutcomeRelation limit limit :=
  .untilStop (Nat.le_refl _) (· = .outOfFuel) (fun _ _ h => nomatch h) (.inl rfl)

namespace UntilFuel

variable {limit : Nat} {α : Type} {res₁ res₂ res₃ : Outcome α}

/-- Fuel may be added twice. -/
theorem trans (h : (OutcomeRelation.untilFuel limit).rel res₁ res₂) (h' : (OutcomeRelation.untilFuel limit).rel res₂ res₃) :
    (OutcomeRelation.untilFuel limit).rel res₁ res₃ := by
  rcases h with rfl | hstop
  · exact h'
  · exact .inr hstop

/-- Fuel may be added twice, for all that an interpreter does. -/
theorem relates_trans {r₁ r₂ r₃ : Interp} (h : (OutcomeRelation.untilFuel limit).Relates r₁ r₂)
    (h' : (OutcomeRelation.untilFuel limit).Relates r₂ r₃) : (OutcomeRelation.untilFuel limit).Relates r₁ r₃ where
  expr e m hw := trans (h.expr e m hw) (h'.expr e m hw)
  slot e m hw := trans (h.slot e m hw) (h'.slot e m hw)
  stmt s m hw := trans (h.stmt s m hw) (h'.stmt s m hw)

/-- A result stays with more fuel. -/
theorem eq_ok (h : (OutcomeRelation.untilFuel limit).rel res₁ res₂) {a : α} {m : Machine} (heq : res₁ = .ok a m) :
    res₂ = .ok a m := by
  rcases h with rfl | ⟨e, m', he, -⟩
  · exact heq
  · rw [heq] at he
    cases he

/-- A failure stays with more fuel. -/
theorem eq_failed (h : (OutcomeRelation.untilFuel limit).rel res₁ res₂) {f : Failure} {m : Machine}
    (heq : res₁ = .error (.failed f) m) : res₂ = .error (.failed f) m := by
  rcases h with rfl | ⟨e, m', he, hstop⟩
  · exact heq
  · rw [heq] at he
    cases he
    cases hstop

end UntilFuel

open UntilFuel

/-- A loop that may go round once more. -/
theorem Interp.loop_untilFuel (limit : Nat) (r : Interp) (var : String) (code : Block FuncId) (fuel : Nat) (cursor : Cursor)
    (m : Machine) :
    (OutcomeRelation.untilFuel limit).rel (r.loop var code fuel cursor m) (r.loop var code (fuel + 1) cursor m) := by
  induction fuel generalizing cursor m with
  | zero => exact .inr ⟨.outOfFuel, m, rfl, rfl⟩
  | succ fuel ih =>
    rcases hn : cursor.next? m.heap with ⟨_ | ⟨s, next⟩, heap⟩
    · rw [Interp.loop_of_next?_none hn, Interp.loop_of_next?_none hn]
      exact .inl rfl
    · rw [Interp.loop_of_next? hn, Interp.loop_of_next? hn]
      refine (OutcomeRelation.untilFuel limit).bind (.inl rfl) fun flow m₁ _ => ?_
      cases flow with
      | returned s => exact .inl rfl
      | completed => exact ih next m₁

/-- A loop that ends within its rounds ends in the same way with more of them. -/
theorem Interp.loop_fuel_le (limit : Nat) (r : Interp) (var : String) (code : Block FuncId) {fuel fuel' : Nat} (hle : fuel ≤ fuel')
    (cursor : Cursor) (m : Machine) :
    (OutcomeRelation.untilFuel limit).rel (r.loop var code fuel cursor m) (r.loop var code fuel' cursor m) := by
  induction hle with
  | refl => exact .inl rfl
  | step _ ih => exact trans ih (loop_untilFuel limit r var code _ cursor m)

/-- Only loops use the fuel of the level itself. -/
theorem Interp.next_untilFuel (limit : Nat) (r : Interp) (fuel : Nat) :
    (OutcomeRelation.untilFuel limit).Relates (Interp.next limit fuel r) (Interp.next limit (fuel + 1) r) where
  expr _ _ _ := .inl rfl
  slot _ _ _ := .inl rfl
  stmt s m _ := by
    refine (OutcomeRelation.untilFuel limit).located (w := .stmt s) (m := m) trivial (Work.span_mem_spans_stmt s) ?_
    cases s with
    | loop _ var list code =>
      refine (OutcomeRelation.untilFuel limit).bind (.inl rfl) fun v m₁ _ => ?_
      exact (OutcomeRelation.untilFuel limit).bind (.inl rfl) fun cursor m₂ _ => loop_untilFuel limit r var code fuel cursor m₂
    | _ => exact .inl rfl

/-- One unit of fuel more changes nothing that ended within its fuel; by induction on the fuel. -/
theorem interp_untilFuel (limit fuel : Nat) :
    (OutcomeRelation.untilFuel limit).Relates (interp limit fuel) (interp limit (fuel + 1)) := by
  induction fuel with
  | zero =>
    exact ⟨fun _ m _ => .inr ⟨.outOfFuel, m, rfl, rfl⟩, fun _ m _ => .inr ⟨.outOfFuel, m, rfl, rfl⟩,
      fun _ m _ => .inr ⟨.outOfFuel, m, rfl, rfl⟩⟩
  | succ fuel ih => exact relates_trans (ih.next (fun _ _ => trivial) fuel) (Interp.next_untilFuel limit (interp limit (fuel + 1)) fuel)

/-- With more fuel an interpreter does the same, unless the fuel was too little before. -/
theorem interp_fuel_le {limit fuel fuel' : Nat} (hle : fuel ≤ fuel') :
    (OutcomeRelation.untilFuel limit).Relates (interp limit fuel) (interp limit fuel') := by
  induction hle with
  | refl => exact ⟨fun _ _ _ => .inl rfl, fun _ _ _ => .inl rfl, fun _ _ _ => .inl rfl⟩
  | @step fuel' _ ih => exact relates_trans ih (interp_untilFuel limit fuel')

/-! ## Instructions -/

/-- What executing a piece of work does with an amount of fuel, where it is work that executes instructions. -/
def Work.exec (limit fuel : Nat) : Work → Exec Flow
  | .stmt s => (interp limit fuel).stmt s
  | .block code => (interp limit fuel).block code
  | .cases choices default => (interp limit fuel).switch default choices
  | .pass var code cursor => (interp limit fuel).loop var code fuel cursor
  | _ => throw .outOfFuel

/-- With more fuel instructions do the same, unless the fuel was too little before. -/
theorem Work.exec_fuel_le {limit fuel fuel' : Nat} (hle : fuel ≤ fuel') (w : Work) (m : Machine) :
    (OutcomeRelation.untilFuel limit).rel (w.exec limit fuel m) (w.exec limit fuel' m) := by
  have h : (OutcomeRelation.untilFuel limit).Relates (interp limit fuel) (interp limit fuel') := interp_fuel_le hle
  have htracks := OutcomeRelation.tracks (O := .untilFuel limit) (r := interp limit fuel) fun _ _ => trivial
  cases w with
  | stmt s => exact h.stmt s m trivial
  | block code => exact h.block (fun _ _ => trivial) trivial
  | cases choices default => exact h.simulation.switch htracks ⟨rfl, rfl⟩ default choices trivial
  | pass var code cursor =>
    have hinside := h.simulation.loop htracks (m := m) ⟨rfl, rfl⟩ var code fuel cursor trivial
    exact trans hinside (Interp.loop_fuel_le limit (interp limit fuel') var code hle cursor m)
  | _ => exact .inl rfl

end NodeScript
