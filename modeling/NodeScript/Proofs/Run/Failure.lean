import NodeScript.Proofs.Run.Simulation

/-!
# What failures are like

A failure comes from a calculation, from a stream, from a `return` outside functions or from the limit of calls, and on its way
up through the work that led to it it only gets a position. So a property of failures that these few things have holds of every
failure of a run (`FailureRule`).
-/

namespace NodeScript

/-- A property of the failures of a run that carries over from the parts of a piece of work to the whole. `holds w m f m'` says
that the work `w`, which the run came to in the state `m`, may fail with `f` in the state `m'`. -/
structure FailureRule (limit : Nat) where
  holds : Work → Machine → Failure → Machine → Prop
  ordinary : ∀ {w : Work} {m m' : Machine} {fault : Fault}, fault.Ordinary → holds w m ⟨fault, none⟩ m'
  stream : ∀ {w : Work} {m m' : Machine} (message : String), holds w m ⟨.stream message, none⟩ m'
  /-- A `return` outside functions. -/
  ret : ∀ {m : Machine} (span : Option Span) (value : Option (Expr FuncId)), m.depth = 0 →
    holds (.stmt (.ret span value)) m ⟨.returnOutsideFunction, none⟩ m
  located : ∀ {w : Work} {m m' : Machine} {f : Failure} {span : Option Span}, span ∈ w.spans → holds w m f m' →
    holds w m (f.located span) m'
  /-- The work failed where it led to, in the same call. -/
  part : ∀ {w w₁ : Work} {m m₁ m' : Machine} {f : Failure} (fuel : Nat), Leads limit (interp limit fuel) w m w₁ m₁ →
    w.isInvoke = false → holds w₁ m₁ f m' → holds w m f m'
  /-- The body of a function failed. -/
  call : ∀ {m m' : Machine} {g : Func} {args : List SlotId} {kwargs : List (String × SlotId)} {env : Env} {f : Failure},
    m.depth < limit → Interp.callEnv m.heap g args kwargs m.env = .ok env →
    holds (.block g.code) { m with env, depth := m.depth + 1 } f m' →
    holds (.invoke g args kwargs) m f { m' with env := m.env, depth := m.depth }

namespace FailureRule

variable {limit : Nat} (F : FailureRule limit)

/-- A run fails only as the rule says. There is no second run to compare it with. -/
@[reducible] def simulation : Simulation limit limit where
  streams source sink source' sink' := source' = source ∧ sink' = sink
  rel w m _ res _ := ∀ f m', res = .error (.failed f) m' → F.holds w m f m'
  limit_le := Nat.le_refl _
  plain {_ _ _ _ m₁ _ _} _ hx f m' hres := by
    obtain ⟨fault, span⟩ := f
    obtain ⟨hspan, hfault⟩ := hx.fails m₁ _ m' hres
    dsimp only at hspan hfault
    rw [hspan]
    exact F.ordinary hfault
  flush _ f m' hres := by
    unfold Exec.flush at hres
    split at hres
    · cases hres
    · cases hres
      exact F.stream _
  readLine _ f m' hres := by
    unfold Exec.readLine at hres
    split at hres
    · cases hres
    · cases hres
      exact F.stream _
  bind {_ _ x _ _ _ _ _ m₁ _} hx hfollow f m' hres := by
    rw [Exec.bind_apply] at hres
    cases hxm : x m₁ with
    | ok a m₂ =>
      rw [hxm] at hres
      exact hfollow a m₂ _ _ hxm ⟨rfl, rfl⟩ f m' hres
    | error e m₂ =>
      rw [hxm] at hres
      cases hres
      exact hx f m' hxm
  located {_ x _ _ _ m₁ _ span} hspan hx f m' hres := by
    unfold Exec.located at hres
    split at hres
    · rename_i e m₂ heq
      cases hres
      exact F.located hspan (hx e _ heq)
    · exact hx f m' hres
  ret {_ span value _ _} hdepth _ f m' hres := by
    cases hres
    exact F.ret span value hdepth
  exhausted _ _ _ f m' hres := by
    cases hres
    exact F.ordinary trivial

/-- The rule goes with the interpreter: a failure of a part is one of the work, and leaves the calls that are open. -/
theorem tracks (fuel : Nat) : F.simulation.Tracks (interp limit fuel) where
  part hl hw hrel f m' hres := F.part fuel hl hw (hrel f m' hres)
  call {_ res _ _ _ _ _ _} hd he hrel f m' hres := by
    cases res with
    | ok a m₁ => cases hres
    | error e m₁ =>
      cases hres
      exact F.call hd he (hrel f m₁ rfl)
  write {_ _ m₁ text _ _} _ _ f m' hres := by
    obtain ⟨env, heap, source, sink, depth⟩ := m₁
    unfold Exec.write at hres
    dsimp only at hres
    split at hres
    · cases hres
    · cases hres
      exact F.stream _

/-- Every interpreter fails only as the rule says. -/
theorem interp_fails (fuel : Nat) : F.simulation.Relates (interp limit fuel) (interp limit fuel) :=
  F.simulation.interp_relates F.tracks fuel

variable {fuel : Nat} {m m' : Machine} {f : Failure}

/-- The value of an expression fails only as the rule says. -/
theorem expr {e : Expr FuncId} (h : (interp limit fuel).expr e m = .error (.failed f) m') : F.holds (.value e) m f m' :=
  (F.interp_fails fuel).expr e ⟨rfl, rfl⟩ f m' h

/-- The slot of an expression fails only as the rule says. -/
theorem slot {e : Expr FuncId} (h : (interp limit fuel).slot e m = .error (.failed f) m') : F.holds (.slot e) m f m' :=
  (F.interp_fails fuel).slot e ⟨rfl, rfl⟩ f m' h

/-- An instruction fails only as the rule says. -/
theorem stmt {s : Stmt FuncId} (h : (interp limit fuel).stmt s m = .error (.failed f) m') : F.holds (.stmt s) m f m' :=
  (F.interp_fails fuel).stmt s ⟨rfl, rfl⟩ f m' h

/-- A block fails only as the rule says. -/
theorem block {code : Block FuncId} (h : (interp limit fuel).block code m = .error (.failed f) m') :
    F.holds (.block code) m f m' :=
  (F.interp_fails fuel).block (F.tracks fuel) ⟨rfl, rfl⟩ code f m' h

end FailureRule

end NodeScript
