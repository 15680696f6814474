import NodeScript.Proofs.Run.Simulation

/-!
# Two runs side by side

How the outcomes of two interpreters compare that start from the same state: equal, or equal unless the first one stopped for a
certain reason. Such a relation (`OutcomeRelation`) does not depend on the work that is compared, which only has to have a certain
property, and all steps that call no interpreter are alike to it. It is a simulation, so it holds of the interpreters of one level
more where it holds of the interpreters below (`OutcomeRelation.Relates.next`).
-/

namespace NodeScript

/-- A relation between the outcomes of two steps from the same state that carries over from the parts of a piece of work to the
whole. The first run lets `limit` calls be open and the second one `limit'`. Only work with the property `work` is compared. -/
structure OutcomeRelation (limit limit' : Nat) where
  work : Work → Machine → Prop
  rel : ∀ {α : Type}, EStateM.Result Halt Machine α → EStateM.Result Halt Machine α → Prop
  limit_le : limit ≤ limit'
  /-- A step of both runs that calls no interpreter. -/
  same : ∀ {α : Type} {x : Exec α} (m : Machine), rel (x m) (x m)
  bind : ∀ {α β : Type} {x x' : Exec α} {f f' : α → Exec β} {m : Machine}, rel (x m) (x' m) →
    (∀ a m', x m = .ok a m' → rel (f a m') (f' a m')) → rel ((x >>= f) m) ((x' >>= f') m)
  located : ∀ {α : Type} {x x' : Exec α} {w : Work} {m m' : Machine} {span : Option Span}, work w m → span ∈ w.spans →
    rel (x m') (x' m') → rel (Exec.located span x m') (Exec.located span x' m')
  enter : ∀ {α : Type} {x x' : Exec α} {env : Env} {m : Machine},
    rel (x { m with env := env, depth := m.depth + 1 }) (x' { m with env := env, depth := m.depth + 1 }) →
    rel (Interp.enter env x m) (Interp.enter env x' m)
  /-- The first run has no call left. The second one then has none left either if its limit is the same. -/
  exhausted : ∀ {α : Type} {x : Exec α} {m : Machine}, limit ≤ m.depth →
    (limit' = limit → x m = Exec.fault (.callDepth limit) m) → rel ((Exec.fault (.callDepth limit) : Exec α) m) (x m)

namespace OutcomeRelation

variable {limit limit' : Nat} {O : OutcomeRelation limit limit'} {r r' : Interp} {m : Machine}

/-- The outcomes of two interpreters are related, wherever they are compared. -/
structure Relates (O : OutcomeRelation limit limit') (r r' : Interp) : Prop where
  expr : ∀ e m, O.work (.value e) m → O.rel (r.expr e m) (r'.expr e m)
  slot : ∀ e m, O.work (.slot e) m → O.rel (r.slot e m) (r'.slot e m)
  stmt : ∀ s m, O.work (.stmt s) m → O.rel (r.stmt s m) (r'.stmt s m)

/-- The relation as one between the outcomes of work, where the work has the property. -/
@[reducible] def simulation (O : OutcomeRelation limit limit') : Simulation limit limit' where
  streams source sink source' sink' := source' = source ∧ sink' = sink
  rel w m _ res res' := O.work w m → O.rel res res'
  limit_le := O.limit_le
  plain := by
    rintro _ x _ _ m₁ _ _ ⟨rfl, rfl⟩ - _
    exact O.same m₁
  flush := by
    rintro _ _ m₁ _ _ ⟨rfl, rfl⟩ _
    exact O.same m₁
  readLine := by
    rintro _ _ m₁ _ _ ⟨rfl, rfl⟩ _
    exact O.same m₁
  bind {_ _ x x' f f' _ _ m₁ m₁'} hx hf hw :=
    @O.bind _ _ (fun _ => x m₁) (fun _ => x' m₁') f f' m₁ (hx hw) fun a m₂ ha => hf a m₂ _ _ ha ⟨rfl, rfl⟩ hw
  located {_ x x' _ _ m₁ m₁' _} hspan hx hw := @O.located _ (fun _ => x m₁) (fun _ => x' m₁') _ _ m₁ _ hw hspan (hx hw)
  ret := by
    rintro m _ _ _ _ - ⟨rfl, rfl⟩ _
    exact O.same m
  exhausted := by
    rintro _ _ _ _ _ _ hfull ⟨rfl, rfl⟩ heq _
    exact O.exhausted hfull heq

/-- The relation goes with the interpreter where the property goes over to all work that is led to. -/
theorem tracks (hP : Inherited limit r O.work) : O.simulation.Tracks r where
  part hl _ hrel hw := hrel (hP hw hl)
  call := by
    intro α res res' m f args kwargs env hd he hrel hw
    have hleave (res : Outcome α) : Interp.enter env (fun _ => res) m = res.leave m := Interp.enter_apply env _ m
    rw [← hleave, ← hleave]
    exact O.enter (hrel (hP hw (.body hd he)))
  write := by
    rintro _ _ m₁ text _ _ - ⟨rfl, rfl⟩ _
    exact O.same m₁

namespace Relates

/-- Related interpreters are related by the simulation. -/
theorem simulation (h : O.Relates r r') : O.simulation.Relates r r' where
  expr := by
    rintro e m _ _ ⟨rfl, rfl⟩ hw
    exact h.expr e m hw
  slot := by
    rintro e m _ _ ⟨rfl, rfl⟩ hw
    exact h.slot e m hw
  stmt := by
    rintro s m _ _ ⟨rfl, rfl⟩ hw
    exact h.stmt s m hw

theorem block (h : O.Relates r r') (hP : Inherited limit r O.work) {code : Block FuncId} (hw : O.work (.block code) m) :
    O.rel (r.block code m) (r'.block code m) :=
  h.simulation.block (tracks hP) ⟨rfl, rfl⟩ code hw

/-- What is related at one level is related at the next. -/
theorem next (h : O.Relates r r') (hP : Inherited limit r O.work) (fuel : Nat) :
    O.Relates (Interp.next limit fuel r) (Interp.next limit' fuel r') :=
  have hnext := h.simulation.next (tracks hP) fuel
  ⟨fun e _ => hnext.expr e ⟨rfl, rfl⟩, fun e _ => hnext.slot e ⟨rfl, rfl⟩, fun s _ => hnext.stmt s ⟨rfl, rfl⟩⟩

end Relates

/-- Outcomes that are equal unless the first run stopped for a certain reason. -/
def untilStop (hle : limit ≤ limit') (stop : Halt → Prop) (hlocated : ∀ f span, stop (.failed f) → stop (.failed (f.located span)))
    (hexhausted : limit' = limit ∨ stop (.failed ⟨.callDepth limit, none⟩)) : OutcomeRelation limit limit' where
  work _ _ := True
  rel res res' := res = res' ∨ ∃ e m, res = .error e m ∧ stop e
  limit_le := hle
  same _ := .inl rfl
  bind hx hf := by
    rw [Exec.bind_apply, Exec.bind_apply]
    rcases hx with hx | ⟨e, m₁, hx, he⟩
    · rw [← hx]
      split
      · exact hf _ _ ‹_›
      · exact .inl rfl
    · rw [hx]
      exact .inr ⟨e, m₁, rfl, he⟩
  located {_ _ _ _ _ _ span} _ _ h := by
    rcases h with h | ⟨e, m₁, h, he⟩
    · exact .inl (by simp only [Exec.located, h])
    · cases e with
      | outOfFuel => exact .inr ⟨.outOfFuel, m₁, by simp only [Exec.located, h], he⟩
      | failed f => exact .inr ⟨.failed (f.located span), m₁, by simp only [Exec.located, h], hlocated f span he⟩
  enter {_ _ _ _ m} h := by
    rcases h with h | ⟨e, m₁, h, he⟩
    · exact .inl (by simp only [Interp.enter, h])
    · exact .inr ⟨e, { m₁ with env := m.env, depth := m.depth }, by simp only [Interp.enter, h], he⟩
  exhausted {_ _ m} _ heq := by
    rcases hexhausted with hlimit | hstop
    · exact .inl (heq hlimit).symm
    · exact .inr ⟨_, m, rfl, hstop⟩

end OutcomeRelation

end NodeScript
