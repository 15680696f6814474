import NodeScript.Proofs.Run.Failure
import NodeScript.Proofs.Run.Fuel

/-!
# Returns

A `return` leaves the body of the function that it is in, and nothing else: outside functions it fails, before its value is
evaluated, and inside a function it never does. So code that is run outside functions never ends with a returned slot, an
expression never fails for that reason, whatever functions it calls, and code outside functions fails for it exactly when it
comes to a `return` of its own (`return_sound`).
-/

namespace NodeScript

/-! ## The instructions of code itself -/

section

variable {φ : Type}

/-- The blocks of an instruction. -/
def Stmt.blocks : Stmt φ → List (Block φ)
  | .cond _ _ code otherwise => code :: otherwise.toList
  | .switch _ cases default => cases.map Prod.snd ++ default.toList
  | .loop _ _ _ code => [code]
  | _ => []

/-- The instruction belongs to the code itself: it may be nested in the blocks of other instructions, but not in a function. -/
inductive Own : Block φ → Stmt φ → Prop where
  | here {code : Block φ} {t : Stmt φ} (h : t ∈ code) : Own code t
  | nested {code block : Block φ} {s t : Stmt φ} (h : s ∈ code) (hb : block ∈ s.blocks) (ht : Own block t) : Own code t

/-- What belongs to some code belongs to longer code. -/
theorem Own.mono {code code' : Block φ} {t : Stmt φ} (h : Own code t) (hsub : ∀ s ∈ code, s ∈ code') : Own code' t := by
  cases h with
  | here h => exact .here (hsub _ h)
  | nested h hb ht => exact .nested (hsub _ h) hb ht

end

/-- The instruction belongs to a piece of work that executes instructions. -/
def Work.Owns : Work → Stmt FuncId → Prop
  | .stmt s, t => Own [s] t
  | .block code, t => Own code t
  | .cases choices default, t => ∃ block ∈ choices.map Prod.snd ++ default.toList, Own block t
  | .pass _ code _, t => Own code t
  | _, _ => False

section

variable {limit : Nat} {r : Interp} {w w' : Work} {m m' : Machine} {t : Stmt FuncId}

/-- Outside a call, work leads to instructions of its own only. -/
theorem Leads.owns (h : Leads limit r w m w' m') (hdepth : m'.depth = m.depth) (ht : w'.Owns t) : w.Owns t := by
  have hnested {s : Stmt FuncId} {block : Block FuncId} (hb : block ∈ s.blocks) (ht : Own block t) : Own [s] t :=
    .nested (.head _) hb ht
  cases h with
  | body => exact absurd hdepth (Nat.succ_ne_self _)
  | blockHead => exact ht.mono fun s hs => by simp_all
  | blockTail => exact ht.mono fun s hs => .tail _ hs
  | condCode => exact hnested (.head _) ht
  | condElse => exact hnested (.tail _ (.head _)) ht
  | switch =>
    obtain ⟨block, hb, ht⟩ := ht
    exact hnested hb ht
  | casesCode => exact ⟨_, .head _, ht⟩
  | casesNext =>
    obtain ⟨block, hb, ht⟩ := ht
    exact ⟨block, .tail _ hb, ht⟩
  | casesDefault => exact ⟨_, .head _, ht⟩
  | loop => exact hnested (.head _) ht
  | passBody | passNext => exact ht
  | _ => exact False.elim ht

/-- A run never leaves the call that it started in before it ends. -/
theorem Reaches.le_depth (h : Reaches limit w m w' m') : m.depth ≤ m'.depth := by
  induction h with
  | start => exact Nat.le_refl _
  | step fuel _ hl ih =>
    rcases hl.depth (interp_scoped limit fuel) with he | ⟨_, he⟩
    · omega
    · omega

/-- The instructions that a run reaches without a call are its own. -/
theorem Reaches.owns (h : Reaches limit w m w' m') (hdepth : m'.depth = m.depth) (ht : w'.Owns t) : w.Owns t := by
  induction h with
  | start => exact ht
  | step fuel h hl ih =>
    have hle := h.le_depth
    have hstep := hl.depth (interp_scoped limit fuel)
    exact ih (by omega) (hl.owns (by omega) ht)

end

/-! ## What a failing return has reached -/

/-- A run fails for a `return` outside functions only where it came to one, and in the state in which it did. -/
def FailureRule.returns (limit : Nat) : FailureRule limit where
  holds w m f m' := f.fault = .returnOutsideFunction →
    ∃ span value, m'.depth = 0 ∧ Reaches limit w m (.stmt (.ret span value)) m'
  ordinary hordinary hf := by
    dsimp only at hf
    rw [hf] at hordinary
    exact hordinary.elim
  stream _ hf := nomatch hf
  ret span value hdepth _ := ⟨span, value, hdepth, .start⟩
  located _ h hf := h hf
  part fuel hl _ h hf := by
    obtain ⟨span, value, hdepth, hreaches⟩ := h hf
    exact ⟨span, value, hdepth, (Reaches.start.step fuel hl).trans hreaches⟩
  call {m m' _ _ _ _ _} _ _ h hf := by
    -- The body runs one call deeper, so that none of its returns is outside functions.
    obtain ⟨span, value, hdepth, hreaches⟩ := h hf
    have hle : m.depth + 1 ≤ m'.depth := hreaches.le_depth
    omega

section

variable {limit fuel : Nat} {code : Block FuncId} {e : Expr FuncId} {m m' : Machine} {f : Failure}

/-- A block that fails for a `return` outside functions has come to one, outside functions. -/
theorem reaches_of_block_fails (h : (interp limit fuel).block code m = .error (.failed f) m')
    (hf : f.fault = .returnOutsideFunction) :
    ∃ span value, m'.depth = 0 ∧ Reaches limit (.block code) m (.stmt (.ret span value)) m' :=
  (FailureRule.returns limit).block h hf

/-- A block fails for a `return` outside functions only where no call is open. -/
theorem depth_eq_zero_of_block_fails (h : (interp limit fuel).block code m = .error (.failed f) m')
    (hf : f.fault = .returnOutsideFunction) : m.depth = 0 := by
  obtain ⟨span, value, hdepth, hreaches⟩ := reaches_of_block_fails h hf
  have hle := hreaches.le_depth
  omega

/-- Work that evaluates reaches instructions only inside calls. -/
theorem Work.not_reaches_ret {w : Work} (hw : w = .value e ∨ w = .slot e) {span : Option Span} {value : Option (Expr FuncId)}
    (hdepth : m'.depth = 0) (h : Reaches limit w m (.stmt (.ret span value)) m') : False := by
  have hle := h.le_depth
  have howns := h.owns (by omega) (t := .ret span value) (.here (.head _))
  rcases hw with rfl | rfl
  · exact howns
  · exact howns

/-- An expression never fails for a `return` outside functions, whatever functions it calls. -/
theorem expr_fault_ne (h : (interp limit fuel).expr e m = .error (.failed f) m') : f.fault ≠ .returnOutsideFunction := by
  intro hf
  obtain ⟨span, value, hdepth, hreaches⟩ := (FailureRule.returns limit).expr h hf
  exact Work.not_reaches_ret (.inl rfl) hdepth hreaches

/-- The slot of an expression is never missed for a `return` outside functions. -/
theorem slot_fault_ne (h : (interp limit fuel).slot e m = .error (.failed f) m') : f.fault ≠ .returnOutsideFunction := by
  intro hf
  obtain ⟨span, value, hdepth, hreaches⟩ := (FailureRule.returns limit).slot h hf
  exact Work.not_reaches_ret (.inr rfl) hdepth hreaches

end

/-! ## A return that is reached fails -/

/-- Executing a piece of work fails, with enough fuel, for a `return` outside functions. -/
def FailsReturning (limit : Nat) (w : Work) (m m' : Machine) : Prop :=
  ∃ fuel span, w.exec limit fuel m = .error (.failed ⟨.returnOutsideFunction, span⟩) m'

/-- An instruction fails where its form does, with one unit of fuel more. -/
theorem FailsReturning.of_form {limit fuel : Nat} {s : Stmt FuncId} {m m' : Machine} {span : Option Span}
    (h : Interp.stmtForm fuel (interp limit fuel) s m = .error (.failed ⟨.returnOutsideFunction, span⟩) m') :
    FailsReturning limit (.stmt s) m m' :=
  ⟨fuel + 1, span.or s.span, Exec.located_of_failed h s.span⟩

section

variable {limit fuel : Nat} {w w' : Work} {m m₁ m' : Machine}

/-- Work fails for a `return` outside functions where the work that it leads to does. -/
theorem Leads.failsReturning (hl : Leads limit (interp limit fuel) w m w' m₁) (h : FailsReturning limit w' m₁ m') :
    FailsReturning limit w m m' := by
  obtain ⟨fuel', span, h⟩ := h
  -- An amount of fuel that is enough for what lies before and for what fails.
  obtain ⟨enough, hle, hle'⟩ : ∃ n, fuel ≤ n ∧ fuel' ≤ n := ⟨max fuel fuel', by omega, by omega⟩
  have hfails := UntilFuel.eq_failed (Work.exec_fuel_le hle' w' m₁) h
  have hmono : (OutcomeRelation.untilFuel limit).Relates (interp limit fuel) (interp limit enough) := interp_fuel_le hle
  have htest {e : Expr FuncId} {b : Bool} {m m₁ : Machine} (ht : (interp limit fuel).test e m = .ok b m₁) :
      (interp limit enough).test e m = .ok b m₁ :=
    UntilFuel.eq_ok (hmono.simulation.test ⟨rfl, rfl⟩ e trivial) ht
  cases hl with
  | body =>
    have hdepth := depth_eq_zero_of_block_fails hfails rfl
    cases hdepth
  | blockHead => exact ⟨enough, span, Exec.bind_of_error hfails _⟩
  | blockTail hs =>
    have hstmt := UntilFuel.eq_ok (hmono.stmt _ _ trivial) hs
    exact ⟨enough, span, (Exec.bind_of_ok hstmt _).trans hfails⟩
  | condCode ht => exact .of_form ((Exec.bind_of_ok (htest ht) _).trans hfails)
  | condElse ht => exact .of_form ((Exec.bind_of_ok (htest ht) _).trans hfails)
  | switch => exact .of_form hfails
  | casesCode ht => exact ⟨enough, span, (Exec.bind_of_ok (htest ht) _).trans hfails⟩
  | casesNext ht => exact ⟨enough, span, (Exec.bind_of_ok (htest ht) _).trans hfails⟩
  | casesDefault => exact ⟨enough, span, hfails⟩
  | loop hv hc =>
    have hvalue := UntilFuel.eq_ok (hmono.expr _ _ trivial) hv
    exact .of_form ((Exec.bind_of_ok hvalue _).trans ((Exec.bind_of_ok (Exec.lift_of_ok hc m₁) _).trans hfails))
  | passBody hn =>
    have hbody := UntilFuel.eq_failed (Work.exec_fuel_le (Nat.le_succ enough) _ _) hfails
    exact ⟨enough + 1, span, (Interp.loop_of_next? hn).trans (Exec.bind_of_error hbody _)⟩
  | passNext hn hb =>
    have hbody := UntilFuel.eq_ok ((interp_fuel_le (Nat.le_succ_of_le hle)).block (fun _ _ => trivial) trivial) hb
    have hmore : (OutcomeRelation.untilFuel limit).Relates (interp limit enough) (interp limit (enough + 1)) :=
      interp_fuel_le (Nat.le_succ enough)
    have hrest := UntilFuel.eq_failed
      (hmore.simulation.loop (OutcomeRelation.tracks fun _ _ => trivial) ⟨rfl, rfl⟩ _ _ enough _ trivial) hfails
    exact ⟨enough + 1, span, (Interp.loop_of_next? hn).trans ((Exec.bind_of_ok hbody _).trans hrest)⟩
  | _ => cases hfails

/-- A `return` that a run comes to makes the whole run fail; by induction on the way there. -/
theorem Reaches.failsReturning (h : Reaches limit w m w' m₁) (hfails : FailsReturning limit w' m₁ m') :
    FailsReturning limit w m m' := by
  induction h with
  | start => exact hfails
  | step fuel _ hl ih => exact ih (hl.failsReturning hfails)

/-- A `return` outside functions fails at once, in the state in which it stands. -/
theorem failsReturning_ret (span : Option Span) (value : Option (Expr FuncId)) (hdepth : m.depth = 0) :
    FailsReturning limit (.stmt (.ret span value)) m m := by
  have hform : Interp.stmtForm 0 (interp limit 0) (.ret span value) m = .error (.failed ⟨.returnOutsideFunction, none⟩) m := by
    show ((if m.depth = 0 then _ else _ : Exec Flow) m) = _
    rw [if_pos hdepth]
    rfl
  exact .of_form hform

end

/-! ## Code outside functions returns nothing -/

/-- A step that ends with a returned slot only inside a function. -/
def ReturnsInside (x : Exec Flow) : Prop :=
  ∀ m s m', x m = .ok (.returned s) m' → m.depth ≠ 0

namespace ReturnsInside

variable {α : Type} {r : Interp}

theorem completed : ReturnsInside (pure .completed) :=
  fun _ _ _ h => nomatch h

/-- A step that opens no call for good, and then instructions. -/
theorem bind {x : Exec α} {f : α → Exec Flow} (hx : Exec.Keeps (fun m m' => m'.depth = m.depth) x)
    (hf : ∀ a, ReturnsInside (f a)) : ReturnsInside (x >>= f) := by
  intro m s m' h
  rw [Exec.bind_apply] at h
  cases hxm : x m with
  | error e m₁ =>
    rw [hxm] at h
    cases h
  | ok a m₁ =>
    rw [hxm] at h
    have hdepth : m₁.depth = m.depth := hx.ok hxm
    rw [← hdepth]
    exact hf a m₁ s m' h

/-- Instructions, and what follows unless they return. -/
theorem andThen {x : Exec Flow} {f : Flow → Exec Flow} {names : List String} (hx : ReturnsInside x)
    (hkeeps : Exec.Keeps (Rebinds names) x) (hf : ReturnsInside (f .completed)) : ReturnsInside (x >>= f) := by
  intro m s m' h
  rw [Exec.bind_apply] at h
  cases hxm : x m with
  | error e m₁ =>
    rw [hxm] at h
    cases h
  | ok flow m₁ =>
    rw [hxm] at h
    cases flow with
    | returned t => exact hx m t m₁ hxm
    | completed =>
      have hdepth : m₁.depth = m.depth := (hkeeps.ok hxm).depth
      rw [← hdepth]
      exact hf m₁ s m' h

/-- The position of a failure does not matter to returns. -/
theorem located {x : Exec Flow} (hx : ReturnsInside x) (span : Option Span) : ReturnsInside (Exec.located span x) := by
  intro m s m' h
  unfold Exec.located at h
  split at h
  · cases h
  · exact hx m s m' h

theorem keeps_depth {x : Exec α} (hx : Exec.Keeps SameScope x) : Exec.Keeps (fun m m' => m'.depth = m.depth) x :=
  hx.mono fun _ _ h => h.depth

/-- A block returns only inside a function if its instructions do. -/
theorem block (hs : r.Scoped) (hr : ∀ s, ReturnsInside (r.stmt s)) (code : Block FuncId) : ReturnsInside (r.block code) := by
  induction code with
  | nil => exact completed
  | cons s rest ih => exact (hr s).andThen (hs.stmt s) ih

/-- A switch returns only inside a function if its blocks do. -/
theorem switch (hs : r.Scoped) (hr : ∀ s, ReturnsInside (r.stmt s)) (default : Option (Block FuncId))
    (choices : List (Expr FuncId × Block FuncId)) : ReturnsInside (r.switch default choices) := by
  induction choices with
  | nil =>
    cases default with
    | none => exact completed
    | some code => exact block hs hr code
  | cons c rest ih =>
    refine bind (keeps_depth (hs.test c.1)) fun holds => ?_
    cases holds with
    | true => exact block hs hr c.2
    | false => exact ih

/-- A loop returns only inside a function if its body does. -/
theorem loop (hs : r.Scoped) (hr : ∀ s, ReturnsInside (r.stmt s)) (var : String) (code : Block FuncId) (fuel : Nat)
    (cursor : Cursor) : ReturnsInside (r.loop var code fuel cursor) := by
  induction fuel generalizing cursor with
  | zero => exact fun _ _ _ h => nomatch h
  | succ fuel ih =>
    intro m s m' h
    rcases hn : cursor.next? m.heap with ⟨_ | ⟨item, next⟩, heap⟩
    · rw [Interp.loop_of_next?_none hn] at h
      cases h
    · rw [Interp.loop_of_next? hn] at h
      have hround : ReturnsInside (r.block code >>= r.afterRound var code fuel next) :=
        (block hs hr code).andThen (hs.block code) (ih next)
      exact hround { m with heap, env := m.env.bind var item } s m' h

/-- All forms of instructions return only inside a function; the `return` itself looks at the depth first. -/
theorem stmtForm (hs : r.Scoped) (hr : ∀ s, ReturnsInside (r.stmt s)) (fuel : Nat) (s : Stmt FuncId) :
    ReturnsInside (Interp.stmtForm fuel r s) := by
  cases s with
  | cond _ test code otherwise =>
    refine bind (keeps_depth (hs.test test)) fun holds => ?_
    cases holds with
    | true => exact block hs hr code
    | false =>
      cases otherwise with
      | none => exact completed
      | some other => exact block hs hr other
  | switch _ cases default => exact switch hs hr default cases
  | loop _ var list code =>
    refine bind (keeps_depth (hs.expr list)) fun v => bind (keeps_depth (StepRule.scope.lift _)) fun cursor => ?_
    exact loop hs hr var code fuel cursor
  | ret _ value =>
    intro m t m' h hdepth
    replace h : (if m.depth = 0 then _ else _ : Exec Flow) m = .ok (.returned t) m' := h
    rw [if_pos hdepth] at h
    cases h
  | setVar _ name value =>
    refine bind (keeps_depth (hs.slot value)) fun s => ?_
    exact bind ((Exec.bind_keeps name s).mono fun _ _ h => h.depth) fun _ => completed
  | compound _ op target value =>
    exact bind (keeps_depth (hs.holds.compound op target value)) fun _ => completed
  | append _ target value =>
    refine bind (keeps_depth (hs.expr target)) fun v => bind (keeps_depth (hs.slot value)) fun s => ?_
    exact bind (keeps_depth (StepRule.scope.lift _)) fun l => bind (keeps_depth (Exec.change_keeps _)) fun _ => completed
  | insert _ target index value =>
    refine bind (keeps_depth (hs.expr target)) fun v => bind (keeps_depth (hs.expr index)) fun i => ?_
    exact bind (keeps_depth (hs.slot value)) fun s => bind (keeps_depth (StepRule.scope.update _)) fun _ => completed
  | remove _ target index =>
    refine bind (keeps_depth (hs.expr target)) fun v => bind (keeps_depth (hs.expr index)) fun i => ?_
    exact bind (keeps_depth (StepRule.scope.update _)) fun _ => completed
  | print _ value =>
    refine bind (keeps_depth (hs.expr value)) fun v => bind (keeps_depth (StepRule.scope.look _)) fun text => ?_
    exact bind (keeps_depth (Exec.write_keeps _)) fun _ => completed
  | expr _ value => exact bind (keeps_depth (hs.expr value)) fun _ => completed

end ReturnsInside

/-- Every instruction returns only inside a function; by induction on the levels. -/
theorem interp_returnsInside (limit fuel : Nat) (s : Stmt FuncId) : ReturnsInside ((interp limit fuel).stmt s) := by
  induction fuel generalizing s with
  | zero => exact fun _ _ _ h => nomatch h
  | succ fuel ih => exact (ReturnsInside.stmtForm (interp_scoped limit fuel) ih fuel s).located s.span

/-! ## Soundness -/

/-- Returns are sound. Outside functions no code ends with a returned slot, so that a program only has to flush its output after
its code. No expression fails for a `return` outside functions, at whatever depth it is evaluated, and no code does inside a
function. Code outside functions fails for it exactly when it comes to a `return` of its own, not one in a function, and the
state is then that in which it came to it: the value of the `return` has not been evaluated. -/
theorem return_sound (limit : Nat) :
    (∀ fuel code m, m.depth = 0 → (∀ s m', (interp limit fuel).block code m ≠ .ok (.returned s) m') ∧
      (interp limit fuel).program code m = ((interp limit fuel).block code >>= fun _ => Exec.flush) m) ∧
    (∀ fuel e m f m', ((interp limit fuel).expr e m = .error (.failed f) m' ∨
      (interp limit fuel).slot e m = .error (.failed f) m') → f.fault ≠ .returnOutsideFunction) ∧
    (∀ fuel code m f m', m.depth ≠ 0 → (interp limit fuel).block code m = .error (.failed f) m' →
      f.fault ≠ .returnOutsideFunction) ∧
    (∀ code m m', m.depth = 0 →
      ((∃ fuel span, (interp limit fuel).block code m = .error (.failed ⟨.returnOutsideFunction, span⟩) m') ↔
        ∃ span value, Own code (.ret span value) ∧ m'.depth = 0 ∧
          Reaches limit (.block code) m (.stmt (.ret span value)) m')) := by
  refine ⟨fun fuel code m hm => ?_, fun fuel e m f m' h => ?_, fun fuel code m f m' hm h hf => ?_, fun code m m' hm => ?_⟩
  · have hnever (s : SlotId) (m' : Machine) : (interp limit fuel).block code m ≠ .ok (.returned s) m' := by
      intro h
      exact ReturnsInside.block (interp_scoped limit fuel) (interp_returnsInside limit fuel) code m s m' h hm
    refine ⟨hnever, ?_⟩
    rw [Interp.program, Exec.bind_apply, Exec.bind_apply]
    cases hblock : (interp limit fuel).block code m with
    | error e m' => rfl
    | ok flow m' =>
      cases flow with
      | completed => rfl
      | returned s => exact absurd hblock (hnever s m')
  · rcases h with h | h
    · exact expr_fault_ne h
    · exact slot_fault_ne h
  · exact hm (depth_eq_zero_of_block_fails h hf)
  · constructor
    · rintro ⟨fuel, span, h⟩
      obtain ⟨place, value, hdepth, hreaches⟩ := reaches_of_block_fails h rfl
      have hown : Own code (.ret place value) := hreaches.owns (hdepth.trans hm.symm) (.here (.head _))
      exact ⟨place, value, hown, hdepth, hreaches⟩
    · rintro ⟨span, value, -, hdepth, hreaches⟩
      exact hreaches.failsReturning (failsReturning_ret span value hdepth)

/-- A `return` in an `if` in a loop, with a value that cannot be evaluated. -/
def returnInLoop : Block FuncId :=
  [.loop none "i" (.list none [.literal none (.int 1)])
    [.cond none (.literal none (.bool true)) [.ret (some ⟨3, 1⟩) (some (.getVar none "missing"))] none]]

/-- The `return` in the loop is reached, and belongs to the code itself. -/
theorem returnInLoop_reached :
    ∃ m', (interp 1000 9).block returnInLoop (.start ⟨[]⟩ .unlimited) =
        .error (.failed ⟨.returnOutsideFunction, some ⟨3, 1⟩⟩) m' ∧
      ∃ span value, Own returnInLoop (.ret span value) ∧ m'.depth = 0 ∧
        Reaches 1000 (.block returnInLoop) (.start ⟨[]⟩ .unlimited) (.stmt (.ret span value)) m' := by
  have hfails : (interp 1000 9).block returnInLoop (.start ⟨[]⟩ .unlimited) =
      .error (.failed ⟨.returnOutsideFunction, some ⟨3, 1⟩⟩)
        (((interp 1000 9).block returnInLoop).after (.start ⟨[]⟩ .unlimited)) := rfl
  exact ⟨_, hfails, ((return_sound 1000).2.2.2 returnInLoop (.start ⟨[]⟩ .unlimited) _ rfl).mp ⟨9, _, hfails⟩⟩

end NodeScript
