import NodeScript.Proofs.Run.Scope

/-!
# Steps that settle

A step of an interpreter depends on its fuel. It settles from a state when, from some amount of fuel on, it ends in one and the
same way, and not because the fuel is used up: that is what it means for the step to come to an end. The rules here follow the
ways in which steps are put together.
-/

namespace NodeScript

namespace Exec

variable {α β : Type}

/-- An outcome for which there was enough fuel: a failure, or a result and a state with the property `post`. -/
def Ended (post : α → Machine → Prop) : EStateM.Result Halt Machine α → Prop
  | .ok a m => post a m
  | .error (.failed _) _ => True
  | .error .outOfFuel _ => False

/-- From some fuel on, a step ends from the state `m` in the same way, and a result has the property `post`. -/
def Settles (x : Nat → Exec α) (m : Machine) (post : α → Machine → Prop) : Prop :=
  ∃ least outcome, Ended post outcome ∧ ∀ fuel ≥ least, x fuel m = outcome

namespace Settles

variable {m : Machine} {post post' : α → Machine → Prop}

/-- A step that needs no fuel. -/
theorem const {x : Exec α} (h : Ended post (x m)) : Settles (fun _ => x) m post :=
  ⟨0, x m, h, fun _ _ => rfl⟩

/-- A property that follows holds of the result too. -/
theorem mono {x : Nat → Exec α} (hx : Settles x m post) (h : ∀ a m', post a m' → post' a m') : Settles x m post' := by
  obtain ⟨least, outcome, hend, heq⟩ := hx
  refine ⟨least, outcome, ?_, heq⟩
  rcases outcome with ⟨a, m'⟩ | ⟨e | _, m'⟩
  · exact h a m' hend
  · trivial
  · exact hend

/-- A step settles where another one does that ends in the same way; what it does with little fuel does not matter. -/
theorem congr {x y : Nat → Exec α} {m' : Machine} (hy : Settles y m' post) (least : Nat)
    (h : ∀ fuel ≥ least, x fuel m = y fuel m') : Settles x m post := by
  obtain ⟨least', outcome, hend, heq⟩ := hy
  refine ⟨max least least', outcome, hend, fun fuel hfuel => ?_⟩
  rw [h fuel (by omega), heq fuel (by omega)]

/-- A step that settles with one unit of fuel more. -/
theorem of_succ {x : Nat → Exec α} (hx : Settles (fun fuel => x (fuel + 1)) m post) : Settles x m post := by
  obtain ⟨least, outcome, hend, heq⟩ := hx
  refine ⟨least + 1, outcome, hend, fun fuel hfuel => ?_⟩
  obtain ⟨fuel, rfl⟩ : ∃ n, fuel = n + 1 := ⟨fuel - 1, by omega⟩
  exact heq fuel (by omega)

/-- One step after another settles if the second one does from each end of the first one. -/
theorem bind {x : Nat → Exec α} {f : Nat → α → Exec β} {post' : β → Machine → Prop} (hx : Settles x m post)
    (hf : ∀ a m', post a m' → Settles (fun fuel => f fuel a) m' post') : Settles (fun fuel => x fuel >>= f fuel) m post' := by
  obtain ⟨least, outcome, hend, heq⟩ := hx
  rcases outcome with ⟨a, m'⟩ | ⟨e, m'⟩
  · refine (hf a m' hend).congr least fun fuel hfuel => ?_
    show (x fuel >>= f fuel) m = f fuel a m'
    rw [bind_apply, heq fuel hfuel]
  · refine ⟨least, .error e m', ?_, fun fuel hfuel => ?_⟩
    · cases e with
      | failed e => trivial
      | outOfFuel => exact hend
    · show (x fuel >>= f fuel) m = .error e m'
      rw [bind_apply, heq fuel hfuel]

/-- The position of a failure does not matter to whether a step settles. -/
theorem located {x : Nat → Exec α} (hx : Settles x m post) (span : Option Span) :
    Settles (fun fuel => located span (x fuel)) m post := by
  obtain ⟨least, outcome, hend, heq⟩ := hx
  refine ⟨least, Exec.located span (x least) m, ?_, fun fuel hfuel => ?_⟩
  · unfold Exec.located
    rw [heq least (Nat.le_refl _)]
    rcases outcome with ⟨a, m'⟩ | ⟨e | _, m'⟩ <;> exact hend
  · simp only [Exec.located, heq fuel hfuel, heq least (Nat.le_refl _)]

/-- A step in an environment of its own, one call deeper. -/
theorem enter {x : Nat → Exec α} {env : Env} {post' : α → Machine → Prop}
    (hx : Settles x { m with env := env, depth := m.depth + 1 } post)
    (h : ∀ a m', post a m' → post' a { m' with env := m.env, depth := m.depth }) :
    Settles (fun fuel => Interp.enter env (x fuel)) m post' := by
  obtain ⟨least, outcome, hend, heq⟩ := hx
  refine ⟨least, Interp.enter env (x least) m, ?_, fun fuel hfuel => ?_⟩
  · unfold Interp.enter
    dsimp only
    rw [heq least (Nat.le_refl _)]
    rcases outcome with ⟨a, m'⟩ | ⟨e | _, m'⟩
    · exact h a m' hend
    · trivial
    · exact hend
  · unfold Interp.enter
    dsimp only
    rw [heq fuel hfuel, heq least (Nat.le_refl _)]

end Settles

end Exec

end NodeScript
