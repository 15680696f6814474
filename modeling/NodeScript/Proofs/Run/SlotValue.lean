import NodeScript.Proofs.Run.Obedience

/-!
# The slot and the value of an expression

An expression is evaluated in two ways, to its value and to a slot, and each of them has its own rules for variables, subscripts
and calls. They agree: the slot holds the value, one fails where the other does and for the same reason, and both leave the same
state, except that the slot may be a new one (`SlotAgrees`). In a state in which names and lists refer only to slots that are
there (`Machine.Intact`), nothing refers to the new one (`slot_agrees_with_value`).
-/

namespace NodeScript

/-! ## Outcomes that agree -/

/-- The outcome of evaluating an expression to a slot agrees with that of evaluating it to its value. -/
inductive SlotAgrees : EStateM.Result Halt Machine SlotId → EStateM.Result Halt Machine Value → Prop where
  /-- The slot was there already. -/
  | own (s : SlotId) (m : Machine) : SlotAgrees (.ok s m) (.ok (m.heap.get s) m)
  /-- The slot is new. -/
  | fresh (v : Value) (m : Machine) : SlotAgrees (.ok m.heap.slots.size { m with heap := (m.heap.alloc v).2 }) (.ok v m)
  | failed (fault : Fault) (span span' : Option Span) (m : Machine) :
      SlotAgrees (.error (.failed ⟨fault, span⟩) m) (.error (.failed ⟨fault, span'⟩) m)
  | outOfFuel (m : Machine) : SlotAgrees (.error .outOfFuel m) (.error .outOfFuel m)

namespace SlotAgrees

variable {α : Type} {m : Machine}

/-- The same step stops both. -/
theorem of_error (e : Halt) (m : Machine) : SlotAgrees (.error e m) (.error e m) := by
  cases e with
  | failed f => exact .failed f.fault f.span f.span m
  | outOfFuel => exact .outOfFuel m

/-- The same step first, and then steps that agree. -/
theorem bind {x : Exec α} {f : α → Exec SlotId} {g : α → Exec Value}
    (h : ∀ a m', x m = .ok a m' → SlotAgrees (f a m') (g a m')) : SlotAgrees ((x >>= f) m) ((x >>= g) m) := by
  rw [Exec.bind_apply, Exec.bind_apply]
  cases hx : x m with
  | ok a m' => exact h a m' hx
  | error e m' => exact of_error e m'

/-- A slot, and its value. -/
theorem read (x : Exec SlotId) (m : Machine) : SlotAgrees (x m) ((x >>= Exec.read) m) := by
  rw [Exec.bind_apply]
  cases x m with
  | ok s m' => exact .own s m'
  | error e m' => exact of_error e m'

/-- A value, and a new slot for it. -/
theorem alloc (y : Exec Value) (m : Machine) : SlotAgrees ((y >>= Exec.alloc) m) (y m) := by
  rw [Exec.bind_apply]
  cases y m with
  | ok v m' => exact .fresh v m'
  | error e m' => exact of_error e m'

/-- A position does not matter to the agreement, on the side of the slot. -/
theorem locatedSlot {x : Exec SlotId} {res : EStateM.Result Halt Machine Value} (h : SlotAgrees (x m) res)
    (span : Option Span) : SlotAgrees (Exec.located span x m) res := by
  unfold Exec.located
  generalize x m = res' at h
  cases h with
  | own s m' => exact .own s m'
  | fresh v m' => exact .fresh v m'
  | failed fault place place' m' => exact .failed fault _ place' m'
  | outOfFuel m' => exact .outOfFuel m'

/-- A position does not matter to the agreement, on the side of the value. -/
theorem locatedValue {y : Exec Value} {res : EStateM.Result Halt Machine SlotId} (h : SlotAgrees res (y m))
    (span : Option Span) : SlotAgrees res (Exec.located span y m) := by
  unfold Exec.located
  generalize y m = res' at h
  cases h with
  | own s m' => exact .own s m'
  | fresh v m' => exact .fresh v m'
  | failed fault place place' m' => exact .failed fault place _ m'
  | outOfFuel m' => exact .outOfFuel m'

end SlotAgrees

/-! ## The two ways to evaluate an expression -/

/-- A part of a list is in a slot of its own, and a part of anything else gets a new one. -/
theorem Interp.elementSlot_agrees (v i : Value) (m : Machine) :
    SlotAgrees (Interp.elementSlot v i m) (Exec.look (fun h => Value.subscript h v i) m) := by
  cases v with
  | list l =>
    show SlotAgrees (Exec.lift (i.index >>= m.heap.slotAt l) m) (Exec.lift (i.index >>= m.heap.elementAt l) m)
    cases i.index with
    | error fault => exact .of_error _ m
    | ok n =>
      show SlotAgrees (Exec.lift (m.heap.slotAt l n) m) (Exec.lift ((m.heap.slotAt l n).map m.heap.get) m)
      cases m.heap.slotAt l n with
      | error fault => exact .of_error _ m
      | ok s => exact .own s m
  | _ => exact .alloc _ m

/-- The two ways agree at one level more, whatever the level below does: the same parts are evaluated first. -/
theorem Interp.next_slotAgrees (limit fuel : Nat) (r : Interp) (e : Expr FuncId) (m : Machine) :
    SlotAgrees ((Interp.next limit fuel r).slot e m) ((Interp.next limit fuel r).expr e m) := by
  show SlotAgrees (Interp.nextSlot limit r e m) (Exec.located e.span (Interp.exprForm limit r e) m)
  cases e with
  | getVar span name => exact ((SlotAgrees.read _ m).locatedSlot span).locatedValue span
  | subscript span target index =>
    refine SlotAgrees.locatedValue (SlotAgrees.bind fun v m₁ _ => SlotAgrees.bind fun i m₂ _ => ?_) span
    exact (Interp.elementSlot_agrees v i m₂).locatedSlot span
  | call span target args kwargs => exact ((SlotAgrees.read _ m).locatedSlot span).locatedValue span
  | _ => exact .alloc _ m

/-- The two ways agree at every level. -/
theorem interp_slotAgrees (limit fuel : Nat) (e : Expr FuncId) (m : Machine) :
    SlotAgrees ((interp limit fuel).slot e m) ((interp limit fuel).expr e m) := by
  cases fuel with
  | zero => exact .outOfFuel m
  | succ fuel => exact Interp.next_slotAgrees limit fuel _ e m

/-! ## What the agreement means -/

/-- The second state is the first one with one slot more. -/
structure Machine.OneMore (m m' : Machine) (v : Value) : Prop where
  env : m'.env = m.env
  source : m'.source = m.source
  sink : m'.sink = m.sink
  depth : m'.depth = m.depth
  slots : m'.heap.slots = m.heap.slots.push v
  lists : m'.heap.lists = m.heap.lists

namespace SlotAgrees

variable {res : EStateM.Result Halt Machine SlotId} {res' : EStateM.Result Halt Machine Value}

/-- There is a slot that holds the value exactly when there is the value. -/
theorem ok_iff (h : SlotAgrees res res') (v : Value) :
    (∃ s m', res = .ok s m' ∧ m'.heap.get s = v) ↔ ∃ m', res' = .ok v m' := by
  cases h with
  | own s m =>
    constructor
    · rintro ⟨s', m', heq, hv⟩
      cases heq
      exact ⟨m, by rw [hv]⟩
    · rintro ⟨m', heq⟩
      cases heq
      exact ⟨s, m, rfl, rfl⟩
  | fresh w m =>
    have hget : ({ m with heap := (m.heap.alloc w).2 } : Machine).heap.get m.heap.slots.size = w := by
      rw [Heap.get_alloc, if_pos rfl]
    constructor
    · rintro ⟨s', m', heq, hv⟩
      cases heq
      rw [hget] at hv
      exact ⟨m, by rw [hv]⟩
    · rintro ⟨m', heq⟩
      cases heq
      exact ⟨_, _, rfl, hget⟩
  | failed | outOfFuel => simp

/-- One way fails for a reason exactly when the other does; the positions may differ. -/
theorem failed_iff (h : SlotAgrees res res') (fault : Fault) :
    (∃ span m', res = .error (.failed ⟨fault, span⟩) m') ↔ ∃ span m', res' = .error (.failed ⟨fault, span⟩) m' := by
  cases h with
  | own | fresh | failed | outOfFuel => simp

/-- One way is out of fuel exactly when the other is. -/
theorem outOfFuel_iff (h : SlotAgrees res res') :
    (∃ m', res = .error .outOfFuel m') ↔ ∃ m', res' = .error .outOfFuel m' := by
  cases h with
  | own | fresh | failed | outOfFuel => simp

/-- Both leave the same state, unless the slot is a new one. -/
theorem after {x : Exec SlotId} {y : Exec Value} {m : Machine} (h : SlotAgrees (x m) (y m)) :
    x.after m = y.after m ∨
      ∃ v, x m = .ok (y.after m).heap.slots.size (x.after m) ∧ (y.after m).OneMore (x.after m) v := by
  unfold Exec.after
  generalize x m = res at h
  generalize y m = res' at h
  cases h with
  | fresh v m' => exact .inr ⟨v, rfl, rfl, rfl, rfl, rfl, rfl, rfl⟩
  | own | failed | outOfFuel => exact .inl rfl

end SlotAgrees

/-! ## References to slots -/

/-- A name or a list refers to the slot. -/
def Machine.Refers (m : Machine) (s : SlotId) : Prop :=
  (∃ name, m.env.get? name = some s) ∨ ∃ l, s ∈ m.heap.items l

/-- Names and lists refer only to slots that are there. -/
def Machine.Intact (m : Machine) : Prop :=
  ∀ s, m.Refers s → s < m.heap.slots.size

/-- All nodes may run, with the slots that there are. -/
abbrev allocated : Regime :=
  .present (fun _ => True) fun _ _ => True

/-- The regime follows the laws: all nodes may run, and all lists may be in use. -/
theorem allocated_lawful : allocated.Lawful :=
  Regime.present_lawful (fun _ _ => trivial) Access.takesIn_all

/-- A state is intact when the regime holds of it. -/
theorem Machine.intact_iff_ready {m : Machine} : m.Intact ↔ allocated.Ready m := by
  constructor
  · intro h
    have hclosed : allocated.Closed m.heap :=
      ⟨fun _ => .of_all (fun _ => trivial) (fun _ => trivial) _, fun {l s} _ hs => h s (.inr ⟨l, hs⟩)⟩
    exact ⟨hclosed, fun name s hs => h s (.inl ⟨name, hs⟩)⟩
  · rintro h s (⟨name, hs⟩ | ⟨l, hs⟩)
    · exact h.env name s hs
    · exact h.heap.items (l := l) trivial hs

/-- At the start there is nothing to refer to. -/
theorem Machine.intact_start (source : Source) (sink : Sink) : (Machine.start source sink).Intact := by
  rintro s (⟨name, hs⟩ | ⟨l, hs⟩)
  · cases hs
  · exact absurd hs (Array.not_mem_empty s)

/-- Every state that a run passes through from an intact state is intact. -/
theorem Machine.Intact.of_visits {limit : Nat} {code : Block FuncId} {m m' : Machine} (hm : m.Intact)
    (h : Visits limit (.block code) m m') : m'.Intact := by
  have hready := Machine.intact_iff_ready.mp hm
  have hpermits : allocated.Permits m.heap (.block code) := fun _ _ => trivial
  exact Machine.intact_iff_ready.mpr (allocated_lawful.later_of_visits hready hpermits h).ready

/-- Evaluating an expression leaves an intact state intact, however it ends. -/
theorem Machine.Intact.after_expr {limit fuel : Nat} {e : Expr FuncId} {m : Machine} (hm : m.Intact) :
    (((interp limit fuel).expr e).after m).Intact := by
  have hruns := (interp_obeys allocated_lawful limit fuel).expr (e := e) (Machine.intact_iff_ready.mp hm) trivial
  exact Machine.intact_iff_ready.mpr hruns.later.ready

/-- What comes in addition is not referred to. -/
theorem Machine.Intact.not_refers_fresh {m m' : Machine} {v : Value} (hm : m.Intact) (h : m.OneMore m' v) :
    ¬m'.Refers m.heap.slots.size := by
  intro hrefers
  have hold : m.Refers m.heap.slots.size := by
    rcases hrefers with ⟨name, hs⟩ | ⟨l, hs⟩
    · rw [h.env] at hs
      exact .inl ⟨name, hs⟩
    · have hitems : m'.heap.items l = m.heap.items l := by simp only [Heap.items, h.lists]
      rw [hitems] at hs
      exact .inr ⟨l, hs⟩
  exact Nat.lt_irrefl _ (hm _ hold)

/-! ## Agreement -/

/-- The two ways to evaluate an expression agree, in every state. There is a slot that holds a value right afterwards exactly when
that is the value of the expression. The slot fails exactly when the value does, and with the same fault; only the position may
differ. Afterwards the states are the same, with the same input, output, environment, depth, slots and lists, except that the slot
may be one more, after all those that were there, to which no name and no list refers. -/
theorem slot_agrees_with_value (limit fuel : Nat) (e : Expr FuncId) (m : Machine) :
    (∀ v, (∃ s m', (interp limit fuel).slot e m = .ok s m' ∧ m'.heap.get s = v) ↔
      ∃ m', (interp limit fuel).expr e m = .ok v m') ∧
    (∀ fault, (∃ span m', (interp limit fuel).slot e m = .error (.failed ⟨fault, span⟩) m') ↔
      ∃ span m', (interp limit fuel).expr e m = .error (.failed ⟨fault, span⟩) m') ∧
    ((∃ m', (interp limit fuel).slot e m = .error .outOfFuel m') ↔ ∃ m', (interp limit fuel).expr e m = .error .outOfFuel m') ∧
    (((interp limit fuel).slot e).after m = ((interp limit fuel).expr e).after m ∨
      ∃ v fresh, fresh = (((interp limit fuel).expr e).after m).heap.slots.size ∧
        (interp limit fuel).slot e m = .ok fresh (((interp limit fuel).slot e).after m) ∧
        (((interp limit fuel).expr e).after m).OneMore (((interp limit fuel).slot e).after m) v ∧
        (m.Intact → ¬(((interp limit fuel).slot e).after m).Refers fresh)) := by
  have hagrees := interp_slotAgrees limit fuel e m
  refine ⟨hagrees.ok_iff, hagrees.failed_iff, hagrees.outOfFuel_iff, ?_⟩
  rcases hagrees.after with heq | ⟨v, hslot, hmore⟩
  · exact .inl heq
  · exact .inr ⟨v, _, rfl, hslot, hmore, fun hm => hm.after_expr.not_refers_fresh hmore⟩

/-- A list with a text in it. -/
def holdingText : Program :=
  [.setVar none "xs" (.list none [.literal none (.int 1), .literal none (.string "ab")])]

/-- The first character of the text in the list. -/
def firstCharacter : Expr FuncId :=
  .subscript none (.subscript none (.getVar none "xs") (.literal none (.int 1))) (.literal none (.int 0))

/-- The state after the program. -/
def textHeld : Machine :=
  (holdingText.runWith 9 .standard ⟨[]⟩ .unlimited).2

/-- The list has slots 0 and 1, the variable slot 2, and the character gets slot 3. -/
theorem firstCharacter_slot_agrees :
    textHeld.Intact ∧ (∃ m', (interp 1000 9).expr firstCharacter textHeld = .ok (.string "a") m') ∧
      (∃ m', (interp 1000 9).slot firstCharacter textHeld = .ok 3 m' ∧ m'.heap.get 3 = .string "a") ∧
      ¬(((interp 1000 9).slot firstCharacter).after textHeld).Refers 3 := by
  have hintact : textHeld.Intact := (Machine.intact_start ⟨[]⟩ .unlimited).of_visits (holdingText.visits_runWith 9 .standard _ _)
  have hvalue : ∃ m', (interp 1000 9).expr firstCharacter textHeld = .ok (.string "a") m' := ⟨_, rfl⟩
  obtain ⟨hok, -, -, hstate⟩ := slot_agrees_with_value 1000 9 firstCharacter textHeld
  obtain ⟨s, m', hslot, hget⟩ := (hok (.string "a")).mpr hvalue
  have hs : s = 3 := by
    cases hslot
    rfl
  subst hs
  refine ⟨hintact, hvalue, ⟨m', hslot, hget⟩, ?_⟩
  rcases hstate with heq | ⟨v, fresh, hfresh, -, -, hunused⟩
  · have hsize : 4 = 3 := congrArg (fun m : Machine => m.heap.slots.size) heq
    cases hsize
  · have hthree : fresh = 3 := hfresh
    rw [← hthree]
    exact hunused hintact

end NodeScript
