import NodeScript.Proofs.Run.Compare

/-!
# The limit of calls is only a limit

A run that never has too many calls open does not depend on how many it may have: under a higher limit it ends in the same way, in
the same state, with the same input read and the same output written. Two runs under different limits go side by side until the
first one has no call left, and no failure is ever recovered, so that the first run then ends with that failure.
-/

namespace NodeScript

/-- The failure of a call that would be one too many. -/
def Failure.Exhausted (e : Failure) : Prop :=
  ∃ limit, e.fault = .callDepth limit

/-- Outcomes that are equal unless the first run had no call left. -/
def OutcomeRelation.untilExhausted {limit limit' : Nat} (hle : limit ≤ limit') : OutcomeRelation limit limit' :=
  .untilStop hle (fun e => ∃ f, e = .failed f ∧ f.Exhausted)
    (by
      rintro _ span ⟨f, ⟨⟩, hf⟩
      exact ⟨_, rfl, hf⟩)
    (.inr ⟨_, rfl, limit, rfl⟩)

/-- Under a higher limit all outcomes are the same, unless the first run had no call left; by induction on the levels. -/
theorem interp_untilExhausted {limit limit' : Nat} (hle : limit ≤ limit') (fuel : Nat) :
    (OutcomeRelation.untilExhausted hle).Relates (interp limit fuel) (interp limit' fuel) := by
  induction fuel with
  | zero => exact ⟨fun _ _ _ => .inl rfl, fun _ _ _ => .inl rfl, fun _ _ _ => .inl rfl⟩
  | succ fuel ih => exact ih.next (fun _ _ => trivial) fuel

/-- A program under a higher limit of calls, whatever the fuel, the input and the output: it ends in the same way and in the same
state as under the lower one, unless it had no call left there. -/
theorem run_eq_of_callLimit_le (program : Program) (fuel : Nat) (config config' : Config) (source : Source) (sink : Sink)
    (hle : config.callLimit ≤ config'.callLimit) (result : Except Halt Unit) (m : Machine)
    (hrun : program.runWith fuel config source sink = (result, m)) (hresult : ∀ e, result = .error (.failed e) → ¬e.Exhausted) :
    program.runWith fuel config' source sink = (result, m) := by
  let O := OutcomeRelation.untilExhausted hle
  have hblock : O.rel ((interp config.callLimit fuel).block (Program.number program 0).1 (.start source sink))
      ((interp config'.callLimit fuel).block (Program.number program 0).1 (.start source sink)) :=
    (interp_untilExhausted hle fuel).block (fun _ _ => trivial) trivial
  have hprogram : O.rel ((interp config.callLimit fuel).program (Program.number program 0).1 (.start source sink))
      ((interp config'.callLimit fuel).program (Program.number program 0).1 (.start source sink)) := by
    refine O.bind hblock fun flow m₁ _ => ?_
    cases flow with
    | completed => exact O.same m₁
    | returned s => exact O.same m₁
  rw [Program.runWith_eq] at hrun ⊢
  rcases hprogram with heq | ⟨_, m₁, heq, e, rfl, he⟩
  · rw [← heq]
    exact hrun
  · rw [heq] at hrun
    cases hrun
    exact absurd he (hresult e rfl)

/-- A function that calls another one, in which a name is not bound. -/
def failingTwoDeep : Program :=
  [.setVar none "g" (.func none () [] [.expr none (.getVar (some ⟨3, 5⟩) "missing")]),
    .setVar none "f" (.func none () [] [.expr none (.call none (.getVar none "g") [] [])]),
    .expr none (.call none (.getVar none "f") [] [])]

/-- Two calls are enough for the program, and with a thousand it fails in the same place. -/
theorem failingTwoDeep_run_eq :
    ∃ m, failingTwoDeep.runWith 9 ⟨2⟩ ⟨[]⟩ .unlimited = (.error (.failed ⟨.variableNotFound "missing", some ⟨3, 5⟩⟩), m) ∧
      failingTwoDeep.runWith 9 ⟨1000⟩ ⟨[]⟩ .unlimited = (.error (.failed ⟨.variableNotFound "missing", some ⟨3, 5⟩⟩), m) := by
  have hrun : failingTwoDeep.runWith 9 ⟨2⟩ ⟨[]⟩ .unlimited =
      (.error (.failed ⟨.variableNotFound "missing", some ⟨3, 5⟩⟩), (failingTwoDeep.runWith 9 ⟨2⟩ ⟨[]⟩ .unlimited).2) := rfl
  refine ⟨_, hrun, run_eq_of_callLimit_le failingTwoDeep 9 ⟨2⟩ ⟨1000⟩ ⟨[]⟩ .unlimited (by decide) _ _ hrun ?_⟩
  rintro e he ⟨limit, hlimit⟩
  cases he
  cases hlimit

end NodeScript
