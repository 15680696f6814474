import NodeScript.Proofs.Run.Obedience
import NodeScript.Proofs.Run.Position
import NodeScript.Proofs.Run.Return
import NodeScript.Proofs.Value.Message

/-!
# Where failures come from

Whoever works with a program starts from an empty environment, runs it, and may ask for single instructions and expressions of
its tree, again and again (`Request`, `Driven`). The bodies of the functions that are called meanwhile come out of slots and lists,
and all of them are in the tree too: that is the regime which every such state keeps to (`Driven.ready`). So whatever request
fails, the failure has one position at most, it is that of a node of the tree, and there is one if the instruction at the top that
failed has one (`failure_provenance`).
-/

namespace NodeScript

/-! ## The nodes of a program -/

section

variable {φ : Type}

/-- The position of a node. -/
def Node.span : Node φ → Option Span
  | expr e => e.span
  | stmt s => s.span

/-- Numbering the functions leaves positions as they are. -/
theorem Node.span_number (n : Node Unit) (k : FuncId) : (n.number k).span = n.span := by
  cases n with
  | expr e => cases e <;> rfl
  | stmt s => cases s <;> rfl

/-- A child of a node in a tree is in the tree. -/
theorem Node.Contains.child {n x c : Node φ} (h : n.Contains x) (hc : c ∈ x.children) : n.Contains c := by
  induction h with
  | self n => exact .inside hc (.self c)
  | inside hc' _ ih => exact .inside hc' (ih hc)

end

namespace Program

/-- The node is one of the program's tree, function bodies included. -/
def Contains (program : Program) (n : Node Unit) : Prop :=
  ∃ s ∈ program, (Node.stmt s).Contains n

/-- The node is one of the program's tree, with its functions numbered in some way. -/
def HasNode (program : Program) (n : Node FuncId) : Prop :=
  ∃ x k, program.Contains x ∧ n = x.number k

/-- The position is that of an instruction or an expression of the program's tree, function bodies included. -/
def HasSpan (program : Program) (place : Span) : Prop :=
  ∃ x, program.Contains x ∧ x.span = some place

variable {program : Program}

/-- A child of a node of the program is one of the program. -/
theorem HasNode.child {n c : Node FuncId} (h : program.HasNode n) (hc : c ∈ n.children) : program.HasNode c := by
  obtain ⟨x, k, ⟨s, hs, hx⟩, rfl⟩ := h
  obtain ⟨y, hy, j, rfl⟩ := Node.mem_children_number hc
  exact ⟨y, j, ⟨s, hs, hx.child hy⟩, rfl⟩

/-- The position of a node of the program is one of the program's positions. -/
theorem HasNode.hasSpan {n : Node FuncId} (h : program.HasNode n) {place : Span} (hn : n.span = some place) :
    program.HasSpan place := by
  obtain ⟨x, k, hx, rfl⟩ := h
  rw [Node.span_number] at hn
  exact ⟨x, hx, hn⟩

/-- The instructions that are run are those of the program, with their functions numbered. -/
theorem hasNode_of_mem_number {s : Stmt FuncId} {k : FuncId} (h : s ∈ (number program k).1) : program.HasNode (.stmt s) := by
  obtain ⟨t, ht, j, rfl⟩ := Stmt.mem_numberAll h
  exact ⟨.stmt t, j, ⟨t, ht, .self _⟩, rfl⟩

/-! ## States whose functions are in the tree -/

/-- The nodes of the program's tree may run, with any slots and lists. -/
def access (program : Program) : Access where
  node := program.HasNode
  slot _ _ := True
  list _ _ := True

/-- All functions that there are have their bodies in the program's tree. -/
def regime (program : Program) : Regime where
  toAccess := program.access
  inv := program.access.Closed

/-- The regime follows the laws: no change makes a function whose body is not in the tree. -/
theorem regime_lawful (program : Program) : program.regime.Lawful where
  child h hc := h.child hc
  inv hc hh := hh.change hc (fun _ _ => trivial) (fun _ _ => trivial) (fun _ _ => .inl trivial) (fun _ _ => .inl trivial)
  slot _ _ := trivial
  list _ _ := trivial
  newSlot _ _ := trivial
  newList _ _ := trivial
  closed hh := hh

theorem ready_start (program : Program) (source : Source) (sink : Sink) : program.regime.Ready (.start source sink) := by
  have hclosed : program.access.Closed Heap.empty := ⟨fun _ => .of_size_le (Nat.zero_le _), fun _ _ => trivial⟩
  exact ⟨hclosed, fun _ _ _ => trivial⟩

/-- Permitted work gives failures positions of nodes of the tree only. -/
theorem hasSpan_of_permits {h : Heap} {w : Work} (hw : program.regime.Permits h w) {place : Span}
    (hplace : some place ∈ w.spans) : program.HasSpan place := by
  cases w with
  | value e | slot e => exact HasNode.hasSpan hw (List.mem_singleton.mp hplace).symm
  | stmt s =>
    replace hw : program.HasNode (.stmt s) := hw
    cases s with
    | compound span op target value =>
      rcases List.mem_cons.mp hplace with hspan | hplace
      · exact hw.hasSpan hspan.symm
      · have htarget : program.HasNode (.expr target) := hw.child (.head _)
        exact htarget.hasSpan (List.mem_singleton.mp hplace).symm
    | _ => exact hw.hasSpan (List.mem_singleton.mp hplace).symm
  | _ => cases hplace

/-- Where a run of permitted work comes to a node, it is one of the tree. -/
theorem hasSpan_of_positionIn {limit : Nat} {w : Work} {m : Machine} (hm : program.regime.Ready m)
    (hw : program.regime.Permits m.heap w) {place : Span} (h : PositionIn limit w m place) : program.HasSpan place := by
  obtain ⟨w', m', hreaches, hplace⟩ := h
  exact hasSpan_of_permits (program.regime_lawful.later_of_reaches hm hw hreaches).2 hplace

end Program

/-! ## Requests -/

/-- What may be asked for when one works with a program: a run of it, with the functions numbered from some number on, an
instruction of its tree, or the value of an expression of its tree. -/
inductive Request (program : Program) where
  | run (first : FuncId)
  | execute (s : Stmt FuncId) (h : program.HasNode (.stmt s))
  | evaluate (e : Expr FuncId) (h : program.HasNode (.expr e))

namespace Request

variable {program : Program}

/-- Does what is asked for. -/
def exec (limit fuel : Nat) : Request program → Exec Unit
  | run first => (interp limit fuel).program (Program.number program first).1
  | execute s _ => (interp limit fuel).stmt s >>= fun _ => pure ()
  | evaluate e _ => (interp limit fuel).expr e >>= fun _ => pure ()

/-- The work that is asked for. -/
def work : Request program → Work
  | run first => .block (Program.number program first).1
  | execute s _ => .stmt s
  | evaluate e _ => .value e

/-- `request.FailsIn limit fuel m n f m'`: the request fails in the node `n` at its top. That is the instruction or the expression
that was asked for, or, for a run, the instruction of the program that failed after all those before it had been completed. -/
def FailsIn (limit fuel : Nat) (m : Machine) (n : Node FuncId) (f : Failure) (m' : Machine) : Request program → Prop
  | run first => ∃ before s rest m₁, (Program.number program first).1 = before ++ s :: rest ∧ n = .stmt s ∧
      (interp limit fuel).block before m = .ok .completed m₁ ∧ (interp limit fuel).stmt s m₁ = .error (.failed f) m'
  | execute s _ => n = .stmt s ∧ (interp limit fuel).stmt s m = .error (.failed f) m'
  | evaluate e _ => n = .expr e ∧ (interp limit fuel).expr e m = .error (.failed f) m'

/-- All instructions of the program were completed, and then the output could not be flushed. -/
def FailsAtFlush (limit fuel : Nat) (m : Machine) (f : Failure) (m' : Machine) : Request program → Prop
  | run first => ∃ message, (interp limit fuel).block (Program.number program first).1 m = .ok .completed m' ∧
      m'.sink.flushFault = some message ∧ f = ⟨.stream message, none⟩
  | _ => False

end Request

/-- `Driven limit program m`: working with the program from an empty environment leads to the state `m`. -/
inductive Driven (limit : Nat) (program : Program) : Machine → Prop where
  | start (source : Source) (sink : Sink) : Driven limit program (.start source sink)
  | after {m : Machine} (h : Driven limit program m) (request : Request program) (fuel : Nat) :
      Driven limit program ((request.exec limit fuel).after m)

section

variable {limit fuel : Nat} {program : Program} {m m' : Machine} {f : Failure}

/-- To leave out the result does not change the state. -/
theorem Exec.after_discard {α : Type} (x : Exec α) (m : Machine) : (x >>= fun _ => pure ()).after m = x.after m := by
  unfold Exec.after
  rw [Exec.bind_apply]
  cases x m <;> rfl

namespace Request

/-- What is asked for may be done: it is in the tree. -/
theorem permits (request : Request program) (h : Heap) : program.regime.Permits h request.work := by
  cases request with
  | run first => exact fun s hs => Program.hasNode_of_mem_number hs
  | execute s hs => exact hs
  | evaluate e he => exact he

/-- A request leaves the state that its work leaves. -/
theorem after_exec (request : Request program) (limit fuel : Nat) (m : Machine) :
    (request.exec limit fuel).after m = request.work.after limit fuel m := by
  cases request with
  | run first => exact Interp.after_program _ _ m
  | execute s hs => exact Exec.after_discard _ m
  | evaluate e he => exact Exec.after_discard _ m

/-- No call is left open by a request. -/
theorem depth_after (request : Request program) (limit fuel : Nat) (m : Machine) :
    (request.work.after limit fuel m).depth = m.depth := by
  have hscoped := interp_scoped limit fuel
  cases request with
  | run first => exact (hscoped.block _ m).depth
  | execute s hs => exact (hscoped.stmt s m).depth
  | evaluate e he => exact (hscoped.expr e m).depth

end Request

/-- Between requests no call is open. -/
theorem Driven.depth (hm : Driven limit program m) : m.depth = 0 := by
  induction hm with
  | start => rfl
  | after h request fuel ih => rw [request.after_exec, request.depth_after, ih]

/-- Between requests all functions that there are have their bodies in the tree. -/
theorem Driven.ready (hm : Driven limit program m) : program.regime.Ready m := by
  induction hm with
  | start source sink => exact program.ready_start source sink
  | after h request fuel ih =>
    rw [request.after_exec]
    exact (program.regime_lawful.later_after ih (request.permits _) limit fuel).ready

/-! ## Failing requests -/

/-- Instructions fail in the first one that fails, when all those before it have been completed. -/
theorem Interp.block_failed {r : Interp} {code : Block FuncId} (h : r.block code m = .error (.failed f) m') :
    ∃ before s rest m₁, code = before ++ s :: rest ∧ r.block before m = .ok .completed m₁ ∧
      r.stmt s m₁ = .error (.failed f) m' := by
  induction code generalizing m with
  | nil => cases h
  | cons s rest ih =>
    rcases Exec.bind_eq_failed_iff.mp h with hs | ⟨flow, m₁, hs, h⟩
    · exact ⟨[], s, rest, m, rfl, rfl, hs⟩
    · cases flow with
      | returned t => cases h
      | completed =>
        obtain ⟨before, t, after, m₂, rfl, hbefore, ht⟩ := ih h
        exact ⟨s :: before, t, after, m₂, rfl, (Exec.bind_of_ok hs _).trans hbefore, ht⟩

/-- A program fails where its code does, or when it flushes its output. -/
theorem Interp.program_failed {code : Block FuncId} (hdepth : m.depth = 0)
    (h : (interp limit fuel).program code m = .error (.failed f) m') :
    (interp limit fuel).block code m = .error (.failed f) m' ∨
      ∃ message, (interp limit fuel).block code m = .ok .completed m' ∧ m'.sink.flushFault = some message ∧
        f = ⟨.stream message, none⟩ := by
  rcases Exec.bind_eq_failed_iff.mp h with hblock | ⟨flow, m₁, hblock, h⟩
  · exact .inl hblock
  · cases flow with
    | returned s =>
      exact absurd hdepth (ReturnsInside.block (interp_scoped limit fuel) (interp_returnsInside limit fuel) code m s m₁ hblock)
    | completed =>
      replace h : Exec.flush m₁ = .error (.failed f) m' := h
      unfold Exec.flush at h
      split at h
      · cases h
      · rename_i message hflush
        cases h
        exact .inr ⟨message, hblock, hflush, rfl⟩

/-- To leave out the result does not hide a failure. -/
theorem Exec.of_discard_failed {α : Type} {x : Exec α} (h : (x >>= fun _ => pure ()) m = .error (.failed f) m') :
    x m = .error (.failed f) m' := by
  refine (Exec.bind_eq_failed_iff_of_total (g := fun _ => pure ()) ?_).mp h
  intro a m₁ hpure
  cases hpure

namespace Request

variable {request : Request program}

/-- A request fails in a node at its top, or when the output of a program is flushed. -/
theorem failsIn_or_failsAtFlush (hdepth : m.depth = 0) (h : request.exec limit fuel m = .error (.failed f) m') :
    (∃ n, request.FailsIn limit fuel m n f m') ∨ request.FailsAtFlush limit fuel m f m' := by
  cases request with
  | run first =>
    rcases Interp.program_failed hdepth h with hblock | hflush
    · obtain ⟨before, s, rest, m₁, hcode, hbefore, hs⟩ := Interp.block_failed hblock
      exact .inl ⟨.stmt s, before, s, rest, m₁, hcode, rfl, hbefore, hs⟩
    · exact .inr hflush
  | execute s hs => exact .inl ⟨.stmt s, rfl, Exec.of_discard_failed h⟩
  | evaluate e he => exact .inl ⟨.expr e, rfl, Exec.of_discard_failed h⟩

/-- What holds of the failures of all work holds of the failures of requests. -/
theorem holds_of_failed (F : FailureRule limit) (hdepth : m.depth = 0)
    (h : request.exec limit fuel m = .error (.failed f) m') : F.holds request.work m f m' := by
  cases request with
  | run first =>
    rcases Interp.program_failed hdepth h with hblock | ⟨message, -, -, rfl⟩
    · exact F.block hblock
    · exact F.stream message
  | execute s hs => exact F.stmt (Exec.of_discard_failed h)
  | evaluate e he => exact F.expr (Exec.of_discard_failed h)

/-- A failure in a node with a position has a position. -/
theorem span_ne_none_of_failsIn {n : Node FuncId} (h : request.FailsIn limit fuel m n f m') (hn : n.span ≠ none) :
    f.span ≠ none := by
  obtain ⟨place, hplace⟩ := Option.ne_none_iff_exists'.mp hn
  -- No interpreter without fuel fails; the others give their failures the position of the node.
  have hstmt {s : Stmt FuncId} {m : Machine} (hs : s.span = some place)
      (h : (interp limit fuel).stmt s m = .error (.failed f) m') : f.span ≠ none := by
    cases fuel with
    | zero => cases h
    | succ fuel => exact Exec.span_ne_none_of_located hs h
  have hexpr {e : Expr FuncId} {m : Machine} (he : e.span = some place)
      (h : (interp limit fuel).expr e m = .error (.failed f) m') : f.span ≠ none := by
    cases fuel with
    | zero => cases h
    | succ fuel => exact Exec.span_ne_none_of_located he h
  cases request with
  | run first =>
    obtain ⟨before, s, rest, m₁, -, rfl, -, hs⟩ := h
    exact hstmt hplace hs
  | execute s hs =>
    obtain ⟨rfl, h⟩ := h
    exact hstmt hplace h
  | evaluate e he =>
    obtain ⟨rfl, h⟩ := h
    exact hexpr hplace h

end Request

end

/-- No run fails for what is wrong with a document. -/
def FailureRule.ofRun (limit : Nat) : FailureRule limit where
  holds _ _ f _ := f.fault.OfRun
  ordinary {_ _ _ fault} h := by
    cases fault with
    | unknownExpression | unknownInstruction | malformedNode => exact h
    | _ => trivial
  stream _ := trivial
  ret _ _ _ := trivial
  located _ h := h
  part _ _ _ h := h
  call _ _ h := h

/-- Where failures come from, whatever is asked for in whatever state that working with a program from an empty environment leads
to. The text of a failure starts with a position exactly when the failure has it, and what follows, the message of the fault, does
not start with another one. The position is that of a node of the program's tree, function bodies included. A request fails in a
node at its top, unless a program was completed and its output could not be flushed, and if that node has a position, so has the
failure. -/
theorem failure_provenance (limit : Nat) (program : Program) (m : Machine) (hm : Driven limit program m)
    (request : Request program) (fuel : Nat) (f : Failure) (m' : Machine)
    (h : request.exec limit fuel m = .error (.failed f) m') :
    ((∀ s rest, f.message = s.text ++ ": " ++ rest ↔ f.span = some s ∧ rest = f.fault.message) ∧ ¬Positioned f.fault.message) ∧
    (∀ s, f.span = some s → program.HasSpan s) ∧
    ((∃ n, request.FailsIn limit fuel m n f m') ∨ request.FailsAtFlush limit fuel m f m') ∧
    ∀ n, request.FailsIn limit fuel m n f m' → n.span ≠ none → f.span ≠ none := by
  have hfault : f.fault.OfRun := Request.holds_of_failed (.ofRun limit) hm.depth h
  have hposition : ∀ s, f.span = some s → PositionIn limit request.work m s :=
    Request.holds_of_failed (.position limit) hm.depth h
  refine ⟨⟨fun s rest => Failure.message_eq_iff hfault, hfault.worded.not_positioned⟩, fun s hs => ?_, ?_, fun n hn => ?_⟩
  · exact Program.hasSpan_of_positionIn hm.ready (request.permits _) (hposition s hs)
  · exact Request.failsIn_or_failsAtFlush hm.depth h
  · exact Request.span_ne_none_of_failsIn hn

/-- The function that is called has an expression with a position in its body that cannot be evaluated. -/
def failingInBody : Program :=
  [.setVar none "f" (.func none () [] [.ret none (some (.getVar (some ⟨2, 5⟩) "missing"))]),
    .expr (some ⟨3, 1⟩) (.call none (.getVar none "f") [] [])]

/-- The state after a run of it. -/
def failedOnce : Machine :=
  ((Request.run 0 : Request failingInBody).exec 1000 9).after (.start ⟨[]⟩ .unlimited)

/-- The call in it. -/
def callingAgain : Stmt FuncId :=
  .expr (some ⟨3, 1⟩) (.call none (.getVar none "f") [] [])

/-- After a run that failed, the call is asked for once more. The body of the function then comes out of the variable, and the
failure has the position of the expression in it. -/
theorem failingInBody_provenance :
    ∃ (hcall : failingInBody.HasNode (.stmt callingAgain)) (m' : Machine), Driven 1000 failingInBody failedOnce ∧
      (Request.execute callingAgain hcall).exec 1000 9 failedOnce =
        .error (.failed ⟨.variableNotFound "missing", some ⟨2, 5⟩⟩) m' ∧
      failingInBody.HasSpan ⟨2, 5⟩ ∧ ¬Positioned (Fault.variableNotFound "missing").message := by
  have hcall : failingInBody.HasNode (.stmt callingAgain) :=
    ⟨.stmt (.expr (some ⟨3, 1⟩) (.call none (.getVar none "f") [] [])), 0, ⟨_, .tail _ (.head _), .self _⟩, rfl⟩
  have hdriven : Driven 1000 failingInBody failedOnce := .after (.start _ _) _ 9
  have hfails : (Request.execute callingAgain hcall).exec 1000 9 failedOnce =
      .error (.failed ⟨.variableNotFound "missing", some ⟨2, 5⟩⟩)
        (((Request.execute callingAgain hcall).exec 1000 9).after failedOnce) := rfl
  have hprovenance := failure_provenance 1000 failingInBody failedOnce hdriven (.execute callingAgain hcall) 9 _ _ hfails
  exact ⟨hcall, _, hdriven, hfails, hprovenance.2.1 ⟨2, 5⟩ rfl, hprovenance.1.2⟩

end NodeScript
