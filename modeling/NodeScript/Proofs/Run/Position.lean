import NodeScript.Proofs.Run.Failure

/-!
# The position of a failure

A failure that has a position has that of a node that the run came to. An expression with a position gives it to every failure
inside that has none yet when its value is asked for. When a slot is asked for, or it is the target of a compound assignment, it
does not do so for the parts of a subscript: their failures leave it as they are (`LeavesUnplaced`), and get the position of
a node around it or none at all. That is the only difference between the two ways to evaluate an expression when it fails, and the
only way for a failure to leave an expression without a position (`failure_position`).
-/

namespace NodeScript

/-! ## Where positions come from -/

/-- The position is that of a node that a run of the work `w` comes to from the state `m`. -/
def PositionIn (limit : Nat) (w : Work) (m : Machine) (s : Span) : Prop :=
  ∃ w' m', Reaches limit w m w' m' ∧ some s ∈ w'.spans

/-- A failure has the position of a node that the run came to, if it has one. -/
def FailureRule.position (limit : Nat) : FailureRule limit where
  holds w m f _ := ∀ s, f.span = some s → PositionIn limit w m s
  ordinary _ _ hs := nomatch hs
  stream _ _ hs := nomatch hs
  ret _ _ _ _ hs := nomatch hs
  located {w m _ f span} hspan h s hs := by
    cases hf : f.span with
    | some s' =>
      rw [Failure.located, hf] at hs
      cases hs
      exact h s hf
    | none =>
      rw [Failure.located, hf] at hs
      exact ⟨w, m, .start, by rw [← hs]; exact hspan⟩
  part fuel hl _ h s hs := by
    obtain ⟨w', m', hreaches, hs'⟩ := h s hs
    exact ⟨w', m', (Reaches.start.step fuel hl).trans hreaches, hs'⟩
  call hd he h s hs := by
    obtain ⟨w', m', hreaches, hs'⟩ := h s hs
    exact ⟨w', m', (Reaches.start.step 0 (.body hd he)).trans hreaches, hs'⟩

section

variable {limit fuel : Nat} {e : Expr FuncId} {m m' : Machine} {f : Failure} {s : Span}

/-- When the value of an expression is asked for, a failure's position is that of a node the run came to. -/
theorem positionIn_of_expr (h : (interp limit fuel).expr e m = .error (.failed f) m') (hs : f.span = some s) :
    PositionIn limit (.value e) m s :=
  (FailureRule.position limit).expr h s hs

/-- When the slot of an expression is asked for, a failure's position is that of a node the run came to. -/
theorem positionIn_of_slot (h : (interp limit fuel).slot e m = .error (.failed f) m') (hs : f.span = some s) :
    PositionIn limit (.slot e) m s :=
  (FailureRule.position limit).slot h s hs

end

/-! ## Steps that leave their failures without a position -/

namespace Exec

variable {α : Type}

/-- No failure of a step has a position yet. -/
def Unplaced (x : Exec α) : Prop :=
  ∀ m f m', x m = .error (.failed f) m' → f.span = none

namespace Unplaced

/-- A fault has no position by itself. -/
theorem fault (f : Fault) : Unplaced (fault f : Exec α) := by
  intro m e m' h
  cases h
  rfl

/-- A calculation gives its faults no position. -/
theorem lift (r : Except Fault α) : Unplaced (lift r) := by
  cases r with
  | ok a => exact fun _ _ _ h => nomatch h
  | error f => exact fault f

theorem look (f : Heap → Except Fault α) : Unplaced (look f) :=
  fun m => lift (f m.heap) m

/-- A name that is not bound is a fault without a position. -/
theorem slotOf (name : String) : Unplaced (slotOf name) := by
  intro m e m' h
  unfold Exec.slotOf at h
  split at h
  · cases h
  · exact fault _ m e m' h

end Unplaced

end Exec

/-! ## Steps that fail -/

namespace Exec

variable {α β γ : Type} {x : Exec α} {m m' : Machine} {f : Failure} {span : Option Span}

/-- Two steps fail where the first one does, or the second one after it. -/
theorem bind_eq_failed_iff {g : α → Exec β} :
    (x >>= g) m = .error (.failed f) m' ↔
      x m = .error (.failed f) m' ∨ ∃ a m₁, x m = .ok a m₁ ∧ g a m₁ = .error (.failed f) m' := by
  rw [bind_apply]
  cases x m with
  | error e m₁ => simp
  | ok a m₁ =>
    constructor
    · intro h
      exact .inr ⟨a, m₁, rfl, h⟩
    · rintro (h | ⟨a', m₂, h, hg⟩)
      · cases h
      · cases h
        exact hg

/-- A step that is followed by one that cannot fail fails where it does on its own. -/
theorem bind_eq_failed_iff_of_total {g : α → Exec β} (hg : ∀ a m₁, g a m₁ ≠ .error (.failed f) m') :
    (x >>= g) m = .error (.failed f) m' ↔ x m = .error (.failed f) m' := by
  rw [bind_eq_failed_iff]
  exact or_iff_left fun ⟨a, m₁, _, h⟩ => hg a m₁ h

/-- Inside a node a step fails with the position of the node, if the failure has none yet. -/
theorem located_eq_failed_iff :
    located span x m = .error (.failed f) m' ↔ ∃ f', x m = .error (.failed f') m' ∧ f = f'.located span := by
  unfold located
  split
  · rename_i e m₁ heq
    simp only [heq, EStateM.Result.error.injEq, Halt.failed.injEq]
    constructor
    · rintro ⟨rfl, rfl⟩
      exact ⟨e, ⟨rfl, rfl⟩, rfl⟩
    · rintro ⟨f', ⟨rfl, rfl⟩, rfl⟩
      exact ⟨rfl, rfl⟩
  · rename_i hne
    constructor
    · intro h
      exact absurd h (hne f m')
    · rintro ⟨f', h, -⟩
      exact absurd h (hne f' m')

/-- A failure gets a position once. -/
theorem located_located (span : Option Span) (x : Exec α) : located span (located span x) = located span x := by
  funext m
  unfold located
  cases x m with
  | ok a m' => rfl
  | error e m' =>
    cases e with
    | outOfFuel => rfl
    | failed f => simp [Failure.located, Option.or_assoc]

/-- Steps that fail in the same way do so with a position too. -/
theorem located_eq_failed_congr {y : Exec β}
    (h : ∀ f', x m = .error (.failed f') m' ↔ y m = .error (.failed f') m') :
    located span x m = .error (.failed f) m' ↔ located span y m = .error (.failed f) m' := by
  rw [located_eq_failed_iff, located_eq_failed_iff]
  exact exists_congr fun f' => and_congr_left fun _ => h f'

/-- Failures get the same position whether they get it after each of two steps or after both. -/
theorem located_bind_eq_failed_congr {g : α → Exec β} {g' : α → Exec γ}
    (h : ∀ a m₁, located span (g a) m₁ = .error (.failed f) m' ↔ located span (g' a) m₁ = .error (.failed f) m') :
    located span (x >>= g) m = .error (.failed f) m' ↔ located span (x >>= g') m = .error (.failed f) m' := by
  cases hx : x m with
  | ok a m₁ =>
    have happly {δ : Type} (k : α → Exec δ) : located span (x >>= k) m = located span (k a) m₁ := by
      simp only [located, bind_apply, hx]
    rw [happly, happly]
    exact h a m₁
  | error e m₁ =>
    simp only [located, bind_apply, hx]
    cases e <;> simp

/-- A calculation fails with its fault, and leaves the state as it is. -/
theorem lift_eq_failed_iff {r : Except Fault α} :
    lift r m = .error (.failed f) m' ↔ ∃ fault, r = .error fault ∧ f = ⟨fault, none⟩ ∧ m' = m := by
  cases r with
  | ok a =>
    constructor
    · intro h
      cases h
    · rintro ⟨_, h, -⟩
      cases h
  | error fault =>
    constructor
    · intro h
      cases h
      exact ⟨fault, rfl, rfl, rfl⟩
    · rintro ⟨_, h, rfl, rfl⟩
      cases h
      rfl

end Exec

/-! ## The ways to evaluate an expression -/

/-- What an expression is evaluated to: its value, a slot, or the slot that a compound assignment works on. -/
inductive Manner where
  | value | slot | target
  deriving DecidableEq

/-- Evaluating an expression fails, when the parts of it are evaluated with an amount of fuel. -/
def Manner.Fails (limit fuel : Nat) (e : Expr FuncId) (m : Machine) (f : Failure) (m' : Machine) : Manner → Prop
  | value => (interp limit (fuel + 1)).expr e m = .error (.failed f) m'
  | slot => (interp limit (fuel + 1)).slot e m = .error (.failed f) m'
  | target => (interp limit fuel).targetSlot e m = .error (.failed f) m'

/-- The position is that of an expression, or of a node that evaluating it comes to. The index of a compound assignment's target
is evaluated only in a list. -/
def Manner.PositionIn (limit : Nat) (e : Expr FuncId) (m : Machine) (s : Span) : Manner → Prop
  | value => NodeScript.PositionIn limit (.value e) m s
  | slot => NodeScript.PositionIn limit (.slot e) m s
  | target => e.span = some s ∨ ∃ span container index, e = .subscript span container index ∧
      (NodeScript.PositionIn limit (.value container) m s ∨
        ∃ fuel l m₁, (interp limit fuel).expr container m = .ok (.list l) m₁ ∧ NodeScript.PositionIn limit (.value index) m₁ s)

/-- The failures that leave an expression as they are: those that the parts of a subscript leave without a position, when a slot
is asked for and not a value. In the target of a compound assignment, an index that is no integer fails like a part. -/
inductive LeavesUnplaced (limit fuel : Nat) : Manner → Expr FuncId → Machine → Failure → Machine → Prop where
  | container {manner : Manner} {container index : Expr FuncId} {m m' : Machine} {f : Failure} {span : Option Span}
      (hmanner : manner ≠ .value) (hc : (interp limit fuel).expr container m = .error (.failed f) m') (hf : f.span = none) :
      LeavesUnplaced limit fuel manner (.subscript span container index) m f m'
  | slotIndex {container index : Expr FuncId} {m m₁ m' : Machine} {v : Value} {f : Failure} {span : Option Span}
      (hc : (interp limit fuel).expr container m = .ok v m₁) (hi : (interp limit fuel).expr index m₁ = .error (.failed f) m')
      (hf : f.span = none) : LeavesUnplaced limit fuel .slot (.subscript span container index) m f m'
  | targetIndex {container index : Expr FuncId} {m m₁ m' : Machine} {l : ListId} {f : Failure} {span : Option Span}
      (hc : (interp limit fuel).expr container m = .ok (.list l) m₁)
      (hi : (interp limit fuel).expr index m₁ = .error (.failed f) m') (hf : f.span = none) :
      LeavesUnplaced limit fuel .target (.subscript span container index) m f m'
  | targetIndexType {container index : Expr FuncId} {m m₁ m' : Machine} {l : ListId} {i : Value} {fault : Fault}
      {span : Option Span} (hc : (interp limit fuel).expr container m = .ok (.list l) m₁)
      (hi : (interp limit fuel).expr index m₁ = .ok i m') (ht : i.index = .error fault) :
      LeavesUnplaced limit fuel .target (.subscript span container index) m ⟨fault, none⟩ m'

/-! ## The value and the slot of an expression -/

/-- The slot of a part of a sequence fails where its value does. -/
theorem Interp.elementSlot_eq_failed_iff {v i : Value} {m m' : Machine} {f : Failure} :
    Interp.elementSlot v i m = .error (.failed f) m' ↔
      Exec.look (fun h => Value.subscript h v i) m = .error (.failed f) m' := by
  cases v with
  | list l =>
    show Exec.lift (i.index >>= m.heap.slotAt l) m = _ ↔ Exec.lift (i.index >>= m.heap.elementAt l) m = _
    rw [Exec.lift_eq_failed_iff, Exec.lift_eq_failed_iff]
    refine exists_congr fun fault => and_congr_left fun _ => ?_
    cases i.index with
    | error e =>
      constructor
      · intro h
        cases h
        rfl
      · intro h
        cases h
        rfl
    | ok n =>
      show m.heap.slotAt l n = _ ↔ (m.heap.slotAt l n).map m.heap.get = _
      cases m.heap.slotAt l n <;> simp [Except.map]
  | _ =>
    show (Exec.look _ >>= fun part => Exec.alloc part) m = _ ↔ _
    rw [Exec.bind_eq_failed_iff]
    refine or_iff_left ?_
    rintro ⟨part, m₁, -, h⟩
    cases h

/-- An expression's value fails where its slot does, with the same failure once it has the position of the expression. -/
theorem value_fails_iff_slot_fails {limit fuel : Nat} {e : Expr FuncId} {m m' : Machine} {f : Failure} :
    Manner.value.Fails limit fuel e m f m' ↔ ∃ f', Manner.slot.Fails limit fuel e m f' m' ∧ f = f'.located e.span := by
  show Exec.located e.span (Interp.exprForm limit (interp limit fuel) e) m = _ ↔
    ∃ f', Interp.nextSlot limit (interp limit fuel) e m = .error (.failed f') m' ∧ f = f'.located e.span
  rw [← Exec.located_eq_failed_iff]
  cases e with
  | getVar span name =>
    rw [Interp.nextSlot, show (Expr.getVar span name).span = span from rfl, Exec.located_located]
    refine Exec.located_eq_failed_congr fun f' => Exec.bind_eq_failed_iff_of_total fun s m₁ h => ?_
    cases h
  | subscript span target index =>
    refine Exec.located_bind_eq_failed_congr fun v m₁ => Exec.located_bind_eq_failed_congr fun i m₂ => ?_
    rw [show (Expr.subscript span target index).span = span from rfl, Exec.located_located]
    exact Exec.located_eq_failed_congr fun f' => Interp.elementSlot_eq_failed_iff.symm
  | call span target args kwargs =>
    rw [Interp.nextSlot, show (Expr.call span target args kwargs).span = span from rfl, Exec.located_located]
    refine Exec.located_eq_failed_congr fun f' => Exec.bind_eq_failed_iff_of_total fun s m₁ h => ?_
    cases h
  | _ =>
    rw [← Exec.located_located]
    refine Exec.located_eq_failed_congr fun f' => (Exec.bind_eq_failed_iff_of_total fun v m₁ h => ?_).symm
    cases h

/-! ## Failures with and without a position -/

section

variable {limit fuel : Nat} {m m' : Machine} {f : Failure} {s : Span}

/-- A step that gives its failures a position leaves none without. -/
theorem Exec.span_ne_none_of_located {α : Type} {x : Exec α} {span : Option Span} (hspan : span = some s)
    (h : Exec.located span x m = .error (.failed f) m') : f.span ≠ none := by
  obtain ⟨f', -, rfl⟩ := Exec.located_eq_failed_iff.mp h
  simp [Failure.located, hspan]

/-- When the value is asked for, no failure leaves the expression without a position. -/
theorem value_unplaced_iff {e : Expr FuncId} (he : e.span = some s) (h : Manner.value.Fails limit fuel e m f m') :
    f.span = none ↔ LeavesUnplaced limit fuel .value e m f m' := by
  have hf : f.span ≠ none := Exec.span_ne_none_of_located he h
  constructor
  · intro hnone
    exact absurd hnone hf
  · intro hl
    cases hl with
    | container hmanner _ _ => exact absurd rfl hmanner

/-- When a slot is asked for, the failures without a position are those of the parts of a subscript. -/
theorem slot_unplaced_iff {e : Expr FuncId} (he : e.span = some s) (h : Manner.slot.Fails limit fuel e m f m') :
    f.span = none ↔ LeavesUnplaced limit fuel .slot e m f m' := by
  refine ⟨fun hnone => ?_, fun hl => ?_⟩
  · replace h : Interp.nextSlot limit (interp limit fuel) e m = .error (.failed f) m' := h
    cases e with
    | getVar | call => exact absurd hnone (Exec.span_ne_none_of_located he h)
    | subscript span container index =>
      rcases Exec.bind_eq_failed_iff.mp h with hc | ⟨v, m₁, hc, h⟩
      · exact .container nofun hc hnone
      rcases Exec.bind_eq_failed_iff.mp h with hi | ⟨i, m₂, hi, h⟩
      · exact .slotIndex hc hi hnone
      · exact absurd hnone (Exec.span_ne_none_of_located he h)
    | _ =>
      rcases Exec.bind_eq_failed_iff.mp h with hform | ⟨v, m₁, -, halloc⟩
      · exact absurd hnone (Exec.span_ne_none_of_located he hform)
      · cases halloc
  · cases hl with
    | container _ _ hf => exact hf
    | slotIndex _ _ hf => exact hf

/-- In the target of a compound assignment the failures without a position are those of the parts of a subscript, and an index
that is no integer. -/
theorem target_unplaced_iff {e : Expr FuncId} (he : e.span = some s) (h : Manner.target.Fails limit fuel e m f m') :
    f.span = none ↔ LeavesUnplaced limit fuel .target e m f m' := by
  refine ⟨fun hnone => ?_, fun hl => ?_⟩
  · replace h : (interp limit fuel).targetSlot e m = .error (.failed f) m' := h
    cases e with
    | subscript span container index =>
      rcases Exec.bind_eq_failed_iff.mp h with hc | ⟨v, m₁, hc, h⟩
      · exact .container nofun hc hnone
      cases v with
      | list l =>
        rcases Exec.bind_eq_failed_iff.mp h with hi | ⟨i, m₂, hi, h⟩
        · exact .targetIndex hc hi hnone
        rcases Exec.bind_eq_failed_iff.mp h with hlift | ⟨n, m₃, -, h⟩
        · obtain ⟨fault, ht, rfl, rfl⟩ := Exec.lift_eq_failed_iff.mp hlift
          exact .targetIndexType hc hi ht
        · exact absurd hnone (Exec.span_ne_none_of_located he h)
      | _ => exact absurd hnone (Exec.span_ne_none_of_located he h)
    | getVar span name => exact absurd hnone (Exec.span_ne_none_of_located he h)
    | _ => exact absurd hnone (Exec.span_ne_none_of_located (x := Exec.fault _) he h)
  · cases hl with
    | container _ _ hf => exact hf
    | targetIndex _ _ hf => exact hf
    | targetIndexType _ _ _ => rfl

/-- A failure that had no position gets it from the node that gives it one. -/
theorem Exec.span_eq_of_located {α : Type} {x : Exec α} {span : Option Span} (hx : x.Unplaced)
    (h : Exec.located span x m = .error (.failed f) m') (hs : f.span = some s) : span = some s := by
  obtain ⟨f', hf', rfl⟩ := Exec.located_eq_failed_iff.mp h
  rw [Failure.located, hx m f' m' hf'] at hs
  exact hs

/-- A position in the target of a compound assignment is that of the target or of a node it comes to. -/
theorem positionIn_of_target {e : Expr FuncId} (h : Manner.target.Fails limit fuel e m f m') (hs : f.span = some s) :
    Manner.target.PositionIn limit e m s := by
  replace h : (interp limit fuel).targetSlot e m = .error (.failed f) m' := h
  cases e with
  | getVar span name => exact .inl (Exec.span_eq_of_located (.slotOf name) h hs)
  | subscript span container index =>
    rcases Exec.bind_eq_failed_iff.mp h with hc | ⟨v, m₁, hc, h⟩
    · exact .inr ⟨span, container, index, rfl, .inl (positionIn_of_expr hc hs)⟩
    cases v with
    | list l =>
      rcases Exec.bind_eq_failed_iff.mp h with hi | ⟨i, m₂, hi, h⟩
      · exact .inr ⟨span, container, index, rfl, .inr ⟨fuel, l, m₁, hc, positionIn_of_expr hi hs⟩⟩
      rcases Exec.bind_eq_failed_iff.mp h with hlift | ⟨n, m₃, -, h⟩
      · rw [Exec.Unplaced.lift _ _ _ _ hlift] at hs
        cases hs
      · exact .inl (Exec.span_eq_of_located (.look _) h hs)
    | _ => exact .inl (Exec.span_eq_of_located (.fault _) h hs)
  | _ => exact .inl (Exec.span_eq_of_located (x := Exec.fault _) (.fault _) h hs)

end

/-- How an expression with a position fails, whichever way it is evaluated: the failure has the position of the expression or of a
node that evaluating it comes to, unless it is one of those that leave the parts of a subscript without a position and the
expression too. The value of an expression fails exactly where its slot does, and with the same failure except that it gives a
position to those too. -/
theorem failure_position (limit fuel : Nat) (e : Expr FuncId) (place : Span) (he : e.span = some place) (m : Machine) :
    (∀ (manner : Manner) f m', manner.Fails limit fuel e m f m' →
      ((∃ s, f.span = some s ∧ manner.PositionIn limit e m s) ↔ ¬LeavesUnplaced limit fuel manner e m f m')) ∧
    ∀ f m', Manner.value.Fails limit fuel e m f m' ↔ ∃ f', Manner.slot.Fails limit fuel e m f' m' ∧ f = f'.located e.span := by
  refine ⟨fun manner f m' h => ?_, fun f m' => value_fails_iff_slot_fails⟩
  have hunplaced : f.span = none ↔ LeavesUnplaced limit fuel manner e m f m' := by
    cases manner with
    | value => exact value_unplaced_iff he h
    | slot => exact slot_unplaced_iff he h
    | target => exact target_unplaced_iff he h
  have hposition (s : Span) (hs : f.span = some s) : manner.PositionIn limit e m s := by
    cases manner with
    | value => exact positionIn_of_expr h hs
    | slot => exact positionIn_of_slot h hs
    | target => exact positionIn_of_target h hs
  rw [← hunplaced]
  constructor
  · rintro ⟨s, hs, -⟩
    rw [hs]
    nofun
  · intro hne
    obtain ⟨s, hs⟩ := Option.ne_none_iff_exists'.mp hne
    exact ⟨s, hs, hposition s hs⟩

/-- An element of a variable that is not bound, where the subscript has a position and the variable has none. -/
def unboundElement : Expr FuncId :=
  .subscript (some ⟨2, 1⟩) (.getVar none "xs") (.literal none (.int 0))

/-- The failure of the variable has the position of the subscript, which is that of a node the run came to. -/
theorem unboundElement_position :
    unboundElement.span = some ⟨2, 1⟩ ∧
      Manner.value.Fails 1000 2 unboundElement (.start ⟨[]⟩ .unlimited) ⟨.variableNotFound "xs", some ⟨2, 1⟩⟩
        (.start ⟨[]⟩ .unlimited) ∧
      Manner.value.PositionIn 1000 unboundElement (.start ⟨[]⟩ .unlimited) ⟨2, 1⟩ := by
  have hfails : Manner.value.Fails 1000 2 unboundElement (.start ⟨[]⟩ .unlimited) ⟨.variableNotFound "xs", some ⟨2, 1⟩⟩
      (.start ⟨[]⟩ .unlimited) := rfl
  refine ⟨rfl, hfails, ?_⟩
  have hposition := ((failure_position 1000 2 unboundElement ⟨2, 1⟩ rfl (.start ⟨[]⟩ .unlimited)).1 .value _ _ hfails).mpr ?_
  · obtain ⟨s, hs, hposition⟩ := hposition
    cases hs
    exact hposition
  · intro hl
    cases hl with
    | container hmanner _ _ => exact absurd rfl hmanner

/-- An assignment of such an element. -/
def assigningUnboundElement : Program :=
  [.setVar (some ⟨1, 1⟩) "y" (.subscript (some ⟨2, 1⟩) (.getVar none "xs") (.literal none (.int 0)))]

/-- A compound assignment to an element whose index is a string. -/
def addingAtString : Program :=
  [.setVar none "xs" (.list none []),
    .compound (some ⟨1, 1⟩) .add (.subscript (some ⟨2, 1⟩) (.getVar none "xs") (.literal none (.string "a")))
      (.literal none (.int 1))]

/-- A subscript with a position does not give it to the failure of its parts when its slot is asked for, nor in the target of a
compound assignment to an index that is no integer: the failure then has the position of the instruction around it. -/
theorem subscript_failure_at_instruction :
    Manner.slot.Fails 1000 2 unboundElement (.start ⟨[]⟩ .unlimited) ⟨.variableNotFound "xs", none⟩ (.start ⟨[]⟩ .unlimited) ∧
      (assigningUnboundElement.runWith 4 .standard ⟨[]⟩ .unlimited).1 =
        .error (.failed ⟨.variableNotFound "xs", some ⟨1, 1⟩⟩) ∧
      (addingAtString.runWith 4 .standard ⟨[]⟩ .unlimited).1 =
        .error (.failed ⟨.mismatch (.index .string), some ⟨1, 1⟩⟩) :=
  ⟨rfl, rfl, rfl⟩

end NodeScript
