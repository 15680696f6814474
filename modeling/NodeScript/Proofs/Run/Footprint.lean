import Mathlib.Logic.Function.Basic
import NodeScript.Proofs.Run.Effects
import NodeScript.Proofs.Run.SlotValue

/-!
# The footprint of mutating instructions

A compound assignment, an `append`, an `insert` and a `remove` evaluate their operands, check them, and then write once: into one
slot or into one list (`Write`). Where the operands neither call a function nor read input (`Expr.quiet`), evaluating them adds new
slots and lists and leaves all else as it was (`interp_growsOnly`), so that the one write is all that an instruction does, and an
instruction that fails does nothing (`mutations_exact_and_atomic`). Slots may be shared and lists may be inside themselves.
-/

namespace NodeScript

open Exec

/-! ## Expressions that change nothing -/

section

variable {φ : Type}

mutual

/-- The expression calls no function and reads no input. What is in the bodies of functions does not count. -/
def Expr.quiet : Expr φ → Bool
  | .literal _ _ | .getVar _ _ | .func _ _ _ _ => true
  | .convert _ _ value | .not _ value | .len _ value | .typeOf _ value => value.quiet
  | .binary _ _ a b | .range _ a b | .subscript _ a b | .join _ a b => a.quiet && b.quiet
  | .list _ items => Expr.quietAll items
  | .input _ _ | .call _ _ _ _ => false

/-- All of the expressions are quiet. -/
def Expr.quietAll : List (Expr φ) → Bool
  | [] => true
  | e :: rest => e.quiet && Expr.quietAll rest

end

/-- The instruction writes into a slot or into a list that is there, and its operands are quiet. -/
def Stmt.MutatesQuietly : Stmt φ → Prop
  | .compound _ _ a b | .append _ a b | .remove _ a b => a.quiet ∧ b.quiet
  | .insert _ a b c => a.quiet ∧ b.quiet ∧ c.quiet
  | _ => False

end

/-- The second state is the first one with other values in its slots and other slots in its lists. There may be new slots and lists
too. -/
structure Machine.Changed (m m' : Machine) (value : SlotId → Value) (slots : ListId → Array SlotId) : Prop where
  env : m'.env = m.env
  source : m'.source = m.source
  sink : m'.sink = m.sink
  depth : m'.depth = m.depth
  slots_le : m.heap.slots.size ≤ m'.heap.slots.size
  lists_le : m.heap.lists.size ≤ m'.heap.lists.size
  get : ∀ s < m.heap.slots.size, m'.heap.get s = value s
  items : ∀ l < m.heap.lists.size, m'.heap.items l = slots l

/-- All that was there is as it was. -/
def Machine.Grows (m m' : Machine) : Prop :=
  m.Changed m' m.heap.get m.heap.items

instance : IsPreorder Machine Machine.Grows where
  refl _ := ⟨rfl, rfl, rfl, rfl, Nat.le_refl _, Nat.le_refl _, fun _ _ => rfl, fun _ _ => rfl⟩
  trans _ _ _ h h' :=
    ⟨h'.env.trans h.env, h'.source.trans h.source, h'.sink.trans h.sink, h'.depth.trans h.depth,
      Nat.le_trans h.slots_le h'.slots_le, Nat.le_trans h.lists_le h'.lists_le,
      fun s hs => (h'.get s (Nat.lt_of_lt_of_le hs h.slots_le)).trans (h.get s hs),
      fun l hl => (h'.items l (Nat.lt_of_lt_of_le hl h.lists_le)).trans (h.items l hl)⟩

namespace Exec

/-- A new slot leaves the others as they were. -/
theorem alloc_grows (v : Value) : Keeps Machine.Grows (Exec.alloc v) := by
  intro m
  refine ⟨rfl, rfl, rfl, rfl, ?_, Nat.le_refl _, fun s hs => ?_, fun _ _ => rfl⟩
  · show m.heap.slots.size ≤ (m.heap.alloc v).2.slots.size
    simp [Heap.alloc]
  · show (m.heap.alloc v).2.get s = m.heap.get s
    rw [Heap.get_alloc, if_neg (Nat.ne_of_lt hs)]

/-- A new list leaves the others as they were. -/
theorem newList_grows (items : Array SlotId) : Keeps Machine.Grows (Exec.change fun h => h.newList items) := by
  intro m
  refine ⟨rfl, rfl, rfl, rfl, Nat.le_refl _, ?_, fun _ _ => rfl, fun l hl => ?_⟩
  · show m.heap.lists.size ≤ (m.heap.newList items).2.lists.size
    simp [Heap.newList]
  · show (m.heap.newList items).2.items l = m.heap.items l
    rw [Heap.items_newList, if_neg (Nat.ne_of_lt hl)]

end Exec

/-! ## Evaluating what is quiet -/

/-- An interpreter under which quiet expressions leave all that was there as it was, however they end. -/
structure Interp.GrowsOnly (r : Interp) : Prop where
  expr : ∀ {e : Expr FuncId}, e.quiet → Keeps Machine.Grows (r.expr e)
  slot : ∀ {e : Expr FuncId}, e.quiet → Keeps Machine.Grows (r.slot e)

namespace Interp.GrowsOnly

variable {r : Interp}

/-- Quiet arguments are evaluated one after the other, and each leaves all that was there as it was. -/
theorem slots (hr : r.GrowsOnly) {es : List (Expr FuncId)} (hes : Expr.quietAll es) : Keeps Machine.Grows (r.slots es) := by
  induction es with
  | nil => exact .pure _
  | cons e rest ih =>
    simp only [Expr.quietAll, Bool.and_eq_true] at hes
    exact (hr.slot hes.1).bind fun s => (ih hes.2).bind fun rest => .pure _

/-- The value of a quiet expression: the cases of calls and of input do not arise. -/
theorem exprForm (hr : r.GrowsOnly) (limit : Nat) {e : Expr FuncId} (he : e.quiet) :
    Keeps Machine.Grows (Interp.exprForm limit r e) := by
  cases e with
  | literal | func => exact .pure _
  | getVar _ name => exact (Keeps.slotOf name).bind fun s => .read s
  | convert _ goal value | len _ value =>
    simp only [Expr.quiet] at he
    exact (hr.expr he).bind fun v => .look _
  | not _ value =>
    simp only [Expr.quiet] at he
    exact (hr.expr he).bind fun v => .lift _
  | typeOf _ value =>
    simp only [Expr.quiet] at he
    exact (hr.expr he).bind fun v => .pure _
  | binary _ _ a b | subscript _ a b | join _ a b =>
    simp only [Expr.quiet, Bool.and_eq_true] at he
    exact (hr.expr he.1).bind fun v => (hr.expr he.2).bind fun w => .look _
  | range _ a b =>
    simp only [Expr.quiet, Bool.and_eq_true] at he
    exact (hr.expr he.1).bind fun v => (hr.expr he.2).bind fun w => .pure _
  | list _ items =>
    simp only [Expr.quiet] at he
    exact (hr.slots he).bind fun slots => (newList_grows _).bind fun l => .pure _
  | input | call => simp [Expr.quiet] at he

/-- To find the slot of an element changes nothing. -/
theorem elementSlot (target index : Value) : Keeps Machine.Grows (Interp.elementSlot target index) := by
  unfold Interp.elementSlot
  cases target with
  | list l => exact .look _
  | _ => exact Keeps.bind (.look _) fun part => alloc_grows part

/-- The slot of a quiet expression is that of a variable or of an element, or it is a new one. -/
theorem nextSlot (hr : r.GrowsOnly) (limit : Nat) {e : Expr FuncId} (he : e.quiet) :
    Keeps Machine.Grows (Interp.nextSlot limit r e) := by
  have hform : Keeps Machine.Grows (Exec.located e.span (Interp.exprForm limit r e)) := (hr.exprForm limit he).located _
  cases e with
  | getVar span name => exact (Keeps.slotOf name).located span
  | subscript span a b =>
    simp only [Expr.quiet, Bool.and_eq_true] at he
    exact (hr.expr he.1).bind fun v => (hr.expr he.2).bind fun i => (elementSlot v i).located span
  | input | call => simp [Expr.quiet] at he
  | _ => exact hform.bind fun v => alloc_grows v

/-- What leaves all as it was at one level does so at the next. -/
theorem next (hr : r.GrowsOnly) (limit fuel : Nat) : (Interp.next limit fuel r).GrowsOnly where
  expr he := (hr.exprForm limit he).located _
  slot he := hr.nextSlot limit he

/-- To find the slot that an assignment works on leaves all as it was, if its target is quiet. -/
theorem targetSlot (hr : r.GrowsOnly) {target : Expr FuncId} (ht : target.quiet) : Keeps Machine.Grows (r.targetSlot target) := by
  cases target with
  | getVar span name => exact (Keeps.slotOf name).located span
  | subscript span container index =>
    simp only [Expr.quiet, Bool.and_eq_true] at ht
    refine (hr.expr ht.1).bind fun v => ?_
    cases v with
    | list l => exact (hr.expr ht.2).bind fun i => (Keeps.lift _).bind fun n => (Keeps.look _).located span
    | _ => exact Keeps.located (.fault _) span
  | _ => exact Keeps.located (.fault _) _

end Interp.GrowsOnly

/-- Quiet expressions leave all that was there as it was, at every level. -/
theorem interp_growsOnly (limit fuel : Nat) : (interp limit fuel).GrowsOnly := by
  induction fuel with
  | zero => exact ⟨fun _ => .throw _, fun _ => .throw _⟩
  | succ fuel ih => exact ih.next limit fuel

/-! ## Writes -/

/-- What an instruction does to a heap in the end: it gives one slot a value, or one list its slots. -/
inductive Write where
  | slot (s : SlotId) (v : Value)
  | list (l : ListId) (items : Array SlotId)

namespace Write

variable {w : Write} {h : Heap}

def apply (h : Heap) : Write → Heap
  | slot s v => h.set s v
  | list l items => h.modifyList l fun _ => items

/-- The values of the slots after a write. -/
def get (h : Heap) : Write → SlotId → Value
  | slot s v => Function.update h.get s v
  | list _ _ => h.get

/-- The slots of the lists after a write. -/
def items (h : Heap) : Write → ListId → Array SlotId
  | slot _ _ => h.items
  | list l items => Function.update h.items l items

/-- The slot or the list is there. -/
def Lands (h : Heap) : Write → Prop
  | slot s _ => s < h.slots.size
  | list l _ => l < h.lists.size

/-- A write makes no slot and no list. -/
theorem size_apply (w : Write) (h : Heap) :
    (w.apply h).slots.size = h.slots.size ∧ (w.apply h).lists.size = h.lists.size := by
  cases w with
  | slot s v => simp [apply, Heap.set]
  | list l items => simp [apply, Heap.modifyList]

/-- What a slot holds after a write; where nothing is written outside the heap, this goes for all slots. -/
theorem get_apply {t : SlotId} (ht : w.Lands h ∨ t < h.slots.size) : (w.apply h).get t = w.get h t := by
  cases w with
  | list l items => rfl
  | slot s v =>
    rw [apply, Heap.get_set, get, Function.update_apply]
    by_cases heq : t = s
    · subst heq
      have hlt : t < h.slots.size := ht.elim id id
      rw [if_pos ⟨rfl, hlt⟩, if_pos rfl]
    · rw [if_neg fun h => heq h.1.symm, if_neg heq]

/-- What a list holds after a write; where nothing is written outside the heap, this goes for all lists. -/
theorem items_apply {k : ListId} (hk : w.Lands h ∨ k < h.lists.size) : (w.apply h).items k = w.items h k := by
  cases w with
  | slot s v => rfl
  | list l slots =>
    rw [apply, Heap.items_modifyList, items, Function.update_apply]
    by_cases heq : k = l
    · subst heq
      have hlt : k < h.lists.size := hk.elim id id
      rw [if_pos ⟨rfl, hlt⟩, if_pos rfl]
    · rw [if_neg fun h => heq h.1.symm, if_neg heq]

/-- A write after all else has stayed as it was. -/
theorem changed {m m₀ : Machine} (hgrows : m.Grows m₀) (w : Write) :
    m.Changed { m₀ with heap := w.apply m₀.heap } (w.get m.heap) (w.items m.heap) := by
  obtain ⟨hslots, hlists⟩ := w.size_apply m₀.heap
  refine ⟨hgrows.env, hgrows.source, hgrows.sink, hgrows.depth, ?_, ?_, fun s hs => ?_, fun l hl => ?_⟩
  · exact hslots ▸ hgrows.slots_le
  · exact hlists ▸ hgrows.lists_le
  · have hget := hgrows.get s hs
    rw [get_apply (.inr (Nat.lt_of_lt_of_le hs hgrows.slots_le))]
    cases w with
    | list => exact hget
    | slot t v =>
      rw [get, get, Function.update_apply, Function.update_apply, hget]
  · have hitems := hgrows.items l hl
    rw [items_apply (.inr (Nat.lt_of_lt_of_le hl hgrows.lists_le))]
    cases w with
    | slot => exact hitems
    | list k slots =>
      rw [items, items, Function.update_apply, Function.update_apply, hitems]

end Write

/-! ## Operands, and the write they lead to -/

/-- `r.Prepares m s w m₀`: in the state `m` the operands of the instruction `s` have values that lead to the write `w`, and the state
is `m₀` once they are evaluated. -/
inductive Interp.Prepares (r : Interp) (m : Machine) : Stmt FuncId → Write → Machine → Prop where
  | compoundName {name : String} {s : SlotId} {value : Expr FuncId} {b v : Value} {m₁ : Machine} {op : ArithOp}
      {span span' : Option Span} (hname : m.env.get? name = some s) (hvalue : r.expr value m = .ok b m₁)
      (hv : Value.binary m₁.heap (.arith op) (m₁.heap.get s) b = .ok v) :
      Prepares r m (.compound span op (.getVar span' name) value) (.slot s v) m₁
  | compoundElement {container index value : Expr FuncId} {l : ListId} {m₁ m₂ m₃ : Machine} {n : Int64} {s : SlotId} {b v : Value}
      {op : ArithOp} {span span' : Option Span} (hcontainer : r.expr container m = .ok (.list l) m₁)
      (hindex : r.expr index m₁ = .ok (.int n) m₂) (hs : m₂.heap.slotAt l n = .ok s) (hvalue : r.expr value m₂ = .ok b m₃)
      (hv : Value.binary m₃.heap (.arith op) (m₃.heap.get s) b = .ok v) :
      Prepares r m (.compound span op (.subscript span' container index) value) (.slot s v) m₃
  | append {target value : Expr FuncId} {l : ListId} {m₁ m₂ : Machine} {s : SlotId} {span : Option Span}
      (htarget : r.expr target m = .ok (.list l) m₁) (hvalue : r.slot value m₁ = .ok s m₂) :
      Prepares r m (.append span target value) (.list l ((m₂.heap.items l).push s)) m₂
  | insert {target index value : Expr FuncId} {l : ListId} {m₁ m₂ m₃ : Machine} {n : Int64} {s : SlotId} {i : Nat}
      {span : Option Span} (htarget : r.expr target m = .ok (.list l) m₁) (hindex : r.expr index m₁ = .ok (.int n) m₂)
      (hvalue : r.slot value m₂ = .ok s m₃) (hgap : gap? n (m₃.heap.items l).size = some i) :
      Prepares r m (.insert span target index value) (.list l ((m₃.heap.items l).insertIdx i s (le_of_gap? hgap))) m₃
  | remove {target index : Expr FuncId} {l : ListId} {m₁ m₂ : Machine} {n : Int64} {i : Nat} {span : Option Span}
      (htarget : r.expr target m = .ok (.list l) m₁) (hindex : r.expr index m₁ = .ok (.int n) m₂)
      (hplace : place? n (m₂.heap.items l).size = some i) :
      Prepares r m (.remove span target index) (.list l ((m₂.heap.items l).eraseIdx i (lt_of_place? hplace))) m₂

/-- A slot goes into a list, at an integer. -/
theorem Value.insert_eq_ok_iff {h h' : Heap} {target index : Value} {s : SlotId} :
    Value.insert h target index s = .ok h' ↔ ∃ l n i, ∃ hgap : gap? n (h.items l).size = some i,
      target = .list l ∧ index = .int n ∧ h' = h.modifyList l fun _ => (h.items l).insertIdx i s (le_of_gap? hgap) := by
  constructor
  · intro hi
    obtain ⟨l, hl, hi⟩ := of_bind_eq_ok hi
    obtain ⟨n, hn, hi⟩ := of_bind_eq_ok hi
    obtain ⟨i, hgap, rfl⟩ := Heap.insert_eq_ok hi
    exact ⟨l, n, i, hgap, of_listFor_eq_ok hl, of_index_eq_ok hn, rfl⟩
  · rintro ⟨l, n, i, hgap, rfl, rfl, rfl⟩
    exact Heap.insert_of_gap? hgap s

/-- An element is taken out of a list, at an integer. -/
theorem Value.remove_eq_ok_iff {h h' : Heap} {target index : Value} :
    Value.remove h target index = .ok h' ↔ ∃ l n i, ∃ hplace : place? n (h.items l).size = some i,
      target = .list l ∧ index = .int n ∧ h' = h.modifyList l fun _ => (h.items l).eraseIdx i (lt_of_place? hplace) := by
  constructor
  · intro hr
    obtain ⟨l, hl, hr⟩ := of_bind_eq_ok hr
    obtain ⟨n, hn, hr⟩ := of_bind_eq_ok hr
    obtain ⟨⟨v, heap⟩, hr, heq⟩ := of_bind_eq_ok hr
    obtain ⟨i, hplace, rfl⟩ := Heap.remove_eq_ok hr
    cases heq
    exact ⟨l, n, i, hplace, of_listFor_eq_ok hl, of_index_eq_ok hn, rfl⟩
  · rintro ⟨l, n, i, hplace, rfl, rfl, rfl⟩
    obtain ⟨v, hr⟩ := Heap.remove_of_place? hplace
    show (h.remove l n >>= fun found => pure found.2) = _
    rw [hr]
    rfl

namespace Interp

variable {r : Interp} {m m' m₀ : Machine}

/-- A compound assignment that succeeds has a target that names a slot. -/
theorem prepares_of_compound {span : Option Span} {op : ArithOp} {target value : Expr FuncId} {u : Unit}
    (h : r.compound op target value m = .ok u m') :
    ∃ w m₀, r.Prepares m (.compound span op target value) w m₀ ∧ m' = { m₀ with heap := w.apply m₀.heap } := by
  obtain ⟨s, m₁, htarget, h⟩ := Exec.bind_eq_ok h
  obtain ⟨b, m₂, hvalue, h⟩ := Exec.bind_eq_ok h
  obtain ⟨a, m₃, hread, h⟩ := Exec.bind_eq_ok h
  cases hread
  obtain ⟨v, m₄, hlook, hwrite⟩ := Exec.bind_eq_ok h
  cases hwrite
  obtain ⟨hv, rfl⟩ := Exec.lift_eq_ok hlook
  refine ⟨.slot s v, m₄, ?_, rfl⟩
  cases target with
  | getVar span' name =>
    obtain ⟨hname, rfl⟩ := Exec.slotOf_eq_ok (Exec.located_eq_ok htarget)
    exact .compoundName hname hvalue hv
  | subscript span' container index =>
    obtain ⟨c, m₅, hcontainer, htarget⟩ := Exec.bind_eq_ok htarget
    cases c with
    | list l =>
      obtain ⟨i, m₆, hindex, htarget⟩ := Exec.bind_eq_ok htarget
      obtain ⟨n, m₇, hlift, hslot⟩ := Exec.bind_eq_ok htarget
      obtain ⟨hs, rfl⟩ := Exec.lift_eq_ok (Exec.located_eq_ok hslot)
      obtain ⟨hn, rfl⟩ := Exec.lift_eq_ok hlift
      rw [Value.of_index_eq_ok hn] at hindex
      exact .compoundElement hcontainer hindex hs hvalue hv
    | _ => cases htarget
  | _ => cases htarget

/-- A mutating instruction that succeeds has evaluated its operands and then written once. -/
theorem prepares_of_stmtForm {fuel : Nat} {s : Stmt FuncId} (hs : s.MutatesQuietly) {flow : Flow}
    (h : r.stmtForm fuel s m = .ok flow m') :
    flow = .completed ∧ ∃ w m₀, r.Prepares m s w m₀ ∧ m' = { m₀ with heap := w.apply m₀.heap } := by
  cases s with
  | compound span op target value =>
    obtain ⟨u, m₁, hcompound, h⟩ := Exec.bind_eq_ok h
    cases h
    exact ⟨rfl, prepares_of_compound hcompound⟩
  | append span target value =>
    obtain ⟨v, m₁, htarget, h⟩ := Exec.bind_eq_ok h
    obtain ⟨s, m₂, hvalue, h⟩ := Exec.bind_eq_ok h
    obtain ⟨l, m₃, hlift, hwrite⟩ := Exec.bind_eq_ok h
    cases hwrite
    obtain ⟨hl, rfl⟩ := Exec.lift_eq_ok hlift
    rw [Value.of_listFor_eq_ok hl] at htarget
    refine ⟨rfl, _, m₃, .append htarget hvalue, ?_⟩
    rw [Write.apply, Heap.append_eq]
  | insert span target index value =>
    obtain ⟨v, m₁, htarget, h⟩ := Exec.bind_eq_ok h
    obtain ⟨i, m₂, hindex, h⟩ := Exec.bind_eq_ok h
    obtain ⟨s, m₃, hvalue, h⟩ := Exec.bind_eq_ok h
    obtain ⟨u, m₄, hupdate, h⟩ := Exec.bind_eq_ok h
    cases h
    obtain ⟨heap, hinsert, rfl⟩ := Exec.update_eq_ok hupdate
    obtain ⟨l, n, j, hgap, rfl, rfl, rfl⟩ := Value.insert_eq_ok_iff.mp hinsert
    exact ⟨rfl, _, m₃, .insert htarget hindex hvalue hgap, rfl⟩
  | remove span target index =>
    obtain ⟨v, m₁, htarget, h⟩ := Exec.bind_eq_ok h
    obtain ⟨i, m₂, hindex, h⟩ := Exec.bind_eq_ok h
    obtain ⟨u, m₃, hupdate, h⟩ := Exec.bind_eq_ok h
    cases h
    obtain ⟨heap, hremove, rfl⟩ := Exec.update_eq_ok hupdate
    obtain ⟨l, n, j, hplace, rfl, rfl, rfl⟩ := Value.remove_eq_ok_iff.mp hremove
    exact ⟨rfl, _, m₂, .remove htarget hindex hplace, rfl⟩
  | _ => cases hs

theorem targetSlot_getVar {span : Option Span} {name : String} {s : SlotId} (hname : m.env.get? name = some s) :
    r.targetSlot (.getVar span name) m = .ok s m := by
  simp only [targetSlot, Exec.located, Exec.slotOf, hname]

/-- The target is an element of a list: it stands for the slot at the index. -/
theorem targetSlot_subscript {span : Option Span} {container index : Expr FuncId} {l : ListId} {n : Int64} {s : SlotId}
    {m₁ m₂ : Machine} (hcontainer : r.expr container m = .ok (.list l) m₁) (hindex : r.expr index m₁ = .ok (.int n) m₂)
    (hs : m₂.heap.slotAt l n = .ok s) : r.targetSlot (.subscript span container index) m = .ok s m₂ := by
  have hslot : Exec.located span (Exec.look fun h => h.slotAt l n) m₂ = .ok s m₂ :=
    Exec.located_of_ok (Exec.lift_of_ok hs m₂) span
  rw [targetSlot, Exec.bind_of_ok hcontainer, ← hslot]
  exact Exec.bind_of_ok hindex _

/-- A compound assignment whose operands have values and whose arithmetic has a result writes the result into the slot. -/
theorem compound_of_targetSlot {op : ArithOp} {target value : Expr FuncId} {s : SlotId} {b v : Value} {m₁ m₂ : Machine}
    (htarget : r.targetSlot target m = .ok s m₁) (hvalue : r.expr value m₁ = .ok b m₂)
    (hv : Value.binary m₂.heap (.arith op) (m₂.heap.get s) b = .ok v) :
    r.compound op target value m = .ok () { m₂ with heap := m₂.heap.set s v } := by
  have hlook : Exec.look (fun h => Value.arith h op (m₂.heap.get s) b) m₂ = .ok v m₂ := Exec.lift_of_ok hv m₂
  rw [compound, Exec.bind_of_ok htarget, Exec.bind_of_ok hvalue]
  exact Exec.bind_of_ok hlook _

/-- Operands that lead to a write are written. -/
theorem stmtForm_of_prepares {s : Stmt FuncId} {w : Write} (h : r.Prepares m s w m₀) (fuel : Nat) :
    r.stmtForm fuel s m = .ok .completed { m₀ with heap := w.apply m₀.heap } := by
  cases h with
  | compoundName hname hvalue hv =>
    rw [stmtForm, Exec.bind_of_ok (compound_of_targetSlot (targetSlot_getVar hname) hvalue hv)]
    rfl
  | compoundElement hcontainer hindex hs hvalue hv =>
    rw [stmtForm, Exec.bind_of_ok (compound_of_targetSlot (targetSlot_subscript hcontainer hindex hs) hvalue hv)]
    rfl
  | append htarget hvalue =>
    rw [Write.apply, ← Heap.append_eq, stmtForm, Exec.bind_of_ok htarget, Exec.bind_of_ok hvalue]
    rfl
  | insert htarget hindex hvalue hgap =>
    rw [stmtForm, Exec.bind_of_ok htarget, Exec.bind_of_ok hindex, Exec.bind_of_ok hvalue]
    exact Exec.bind_of_ok (Exec.update_of_ok (Value.insert_eq_ok_iff.mpr ⟨_, _, _, hgap, rfl, rfl, rfl⟩)) _
  | remove htarget hindex hplace =>
    rw [stmtForm, Exec.bind_of_ok htarget, Exec.bind_of_ok hindex]
    exact Exec.bind_of_ok (Exec.update_of_ok (Value.remove_eq_ok_iff.mpr ⟨_, _, _, hplace, rfl, rfl, rfl⟩)) _

end Interp

/-! ## Failures -/

namespace Exec

variable {α β : Type} {R : Machine → Machine → Prop}

/-- A step that fails leaves a state that stands in the relation `R` to the one before. -/
def KeepsOnFailure (R : Machine → Machine → Prop) (x : Exec α) : Prop :=
  ∀ m e m', x m = .error e m' → R m m'

/-- A step that keeps the relation however it ends does so when it fails. -/
theorem Keeps.onFailure {x : Exec α} (hx : Keeps R x) : KeepsOnFailure R x := by
  intro m e m' h
  have hm := hx m
  rw [after, h] at hm
  exact hm

namespace KeepsOnFailure

/-- A failure comes from the first step, or from the second one after the first one has kept the relation. -/
theorem bind [IsTrans Machine R] {x : Exec α} {f : α → Exec β} (hx : Keeps R x) (hf : ∀ a, KeepsOnFailure R (f a)) :
    KeepsOnFailure R (x >>= f) := by
  intro m e m' h
  rw [bind_apply] at h
  cases hxm : x m with
  | error e₁ m₁ =>
    rw [hxm] at h
    cases h
    exact hx.onFailure _ _ _ hxm
  | ok a m₁ =>
    rw [hxm] at h
    exact IsTrans.trans _ _ _ (hx.ok hxm) (hf a _ _ _ h)

/-- What follows without being able to fail does not count. -/
theorem andThen {x : Exec α} (hx : KeepsOnFailure R x) (b : β) : KeepsOnFailure R (x >>= fun _ => Pure.pure b) := by
  intro m e m' h
  rw [bind_apply] at h
  cases hxm : x m with
  | error e₁ m₁ =>
    rw [hxm] at h
    cases h
    exact hx _ _ _ hxm
  | ok a m₁ =>
    rw [hxm] at h
    cases h

/-- The position of a failure does not matter. -/
theorem located {x : Exec α} (hx : KeepsOnFailure R x) (span : Option Span) : KeepsOnFailure R (Exec.located span x) := by
  intro m e m' h
  unfold Exec.located at h
  split at h
  · cases h
    exact hx _ _ _ ‹_›
  · exact hx _ _ _ h

theorem change (f : Heap → α × Heap) : KeepsOnFailure R (Exec.change f) := by
  intro m e m' h
  cases h

/-- An update that fails has not written anything. -/
theorem update [Std.Refl R] (f : Heap → Except Fault Heap) : KeepsOnFailure R (Exec.update f) := by
  intro m e m' h
  unfold Exec.update at h
  split at h
  · cases h
  · cases h
    exact refl m

end KeepsOnFailure

end Exec

/-- All checks of a mutating instruction come before its write. -/
theorem Interp.GrowsOnly.stmtForm {r : Interp} (hr : r.GrowsOnly) (fuel : Nat) {s : Stmt FuncId} (hs : s.MutatesQuietly) :
    KeepsOnFailure Machine.Grows (Interp.stmtForm fuel r s) := by
  cases s with
  | compound span op target value =>
    refine .andThen (.bind (hr.targetSlot hs.1) fun s => .bind (hr.expr hs.2) fun b => ?_) Flow.completed
    exact .bind (.read s) fun a => .bind (.look _) fun v => .change _
  | append span target value =>
    refine .bind (hr.expr hs.1) fun v => .bind (hr.slot hs.2) fun s => .bind (.lift _) fun l => ?_
    exact .andThen (.change _) Flow.completed
  | insert span target index value =>
    refine .bind (hr.expr hs.1) fun v => .bind (hr.expr hs.2.1) fun i => .bind (hr.slot hs.2.2) fun s => ?_
    exact .andThen (.update _) Flow.completed
  | remove span target index =>
    refine .bind (hr.expr hs.1) fun v => .bind (hr.expr hs.2) fun i => ?_
    exact .andThen (.update _) Flow.completed
  | _ => cases hs

/-! ## States without dangling references -/

/-- All nodes may run, and what there is leads only to what there is. -/
abbrev Regime.whole : Regime :=
  .present (fun _ => True) fun h l => l < h.lists.size

/-- The regime of whole heaps follows the laws: no tree has a node that may not run. -/
theorem Regime.whole_lawful : Regime.whole.Lawful :=
  Regime.present_lawful (fun _ _ => trivial) Access.takesIn_existing

/-- Under it a value is in use when it refers to no list outside the heap. -/
theorem Regime.fits_whole_iff {h : Heap} {v : Value} : Regime.whole.Fits h v ↔ v.Below h.lists.size := by
  induction v with
  | list l => exact Iff.rfl
  | range a b iha ihb => exact and_congr iha ihb
  | func f => exact iff_of_true (fun _ _ => trivial) trivial
  | _ => exact Iff.rfl

/-- Names and lists refer only to slots that are there, and values only to lists that are there. -/
structure Machine.Whole (m : Machine) : Prop where
  intact : m.Intact
  below : ∀ s, (m.heap.get s).Below m.heap.lists.size

namespace Machine

variable {m m' : Machine}

/-- A whole state is one that the regime holds of. -/
theorem whole_iff_ready : m.Whole ↔ Regime.whole.Ready m := by
  constructor
  · intro h
    refine ⟨⟨fun {s} _ => Regime.fits_whole_iff.mpr (h.below s), fun {l s} _ hs => h.intact s (.inr ⟨l, hs⟩)⟩, ?_⟩
    exact fun name s hs => h.intact s (.inl ⟨name, hs⟩)
  · intro h
    refine ⟨?_, fun s => ?_⟩
    · rintro s (⟨name, hs⟩ | ⟨l, hs⟩)
      · exact h.env name s hs
      · exact h.heap.items (Heap.lt_size_of_mem_items hs) hs
    · rcases Nat.lt_or_ge s m.heap.slots.size with hs | hs
      · exact Regime.fits_whole_iff.mp (h.heap.get hs)
      · rw [Heap.get_of_size_le _ hs]
        trivial

/-- Every state that a run passes through from the start is whole. -/
theorem whole_of_visits {limit : Nat} {code : Block FuncId} {source : Source} {sink : Sink}
    (h : Visits limit (.block code) (.start source sink) m) : m.Whole := by
  have hready : Regime.whole.Ready (.start source sink) := ⟨Regime.closed_present_empty, fun _ _ hs => nomatch hs⟩
  have hpermits : Regime.whole.Permits Heap.empty (.block code) := fun _ _ => trivial
  exact whole_iff_ready.mpr (Regime.whole_lawful.later_of_visits hready hpermits h).ready

/-- A name leads to the slot: it stands for it, or holds a list with the slot. -/
def Reachable (m : Machine) (s : SlotId) : Prop :=
  (∃ name, m.env.get? name = some s) ∨ ∃ l, m.Holds (.list l) ∧ s ∈ m.heap.items l

/-- Names hold the same values as before, and lead to no slot and no list that is new. -/
structure SameView (m m' : Machine) : Prop where
  holds : ∀ v, m'.Holds v ↔ m.Holds v
  slot_lt : ∀ s, m'.Reachable s → s < m.heap.slots.size
  list_lt : ∀ l, m'.Holds (.list l) → l < m.heap.lists.size

/-- What is inside a value of a whole state refers to lists of that state. -/
theorem Whole.below_of_inside (hm : m.Whole) {v w : Value} (hv : v.Below m.heap.lists.size) (h : m.heap.Inside v w) :
    w.Below m.heap.lists.size := by
  induction h with
  | refl => exact hv
  | tail _ hp ih =>
    cases hp with
    | element hs => exact hm.below _
    | start => exact ih.1
    | stop => exact ih.2

/-- What the names of a whole state hold refers to lists of that state. -/
theorem Whole.below_of_holds (hm : m.Whole) {v : Value} (hv : m.Holds v) : v.Below m.heap.lists.size := by
  obtain ⟨name, s, -, hin⟩ := hv
  exact hm.below_of_inside (hm.below s) hin

namespace Grows

theorem trans {m₁ m₂ m₃ : Machine} (h : m₁.Grows m₂) (h' : m₂.Grows m₃) : m₁.Grows m₃ :=
  IsTrans.trans _ _ _ h h'

/-- The parts of a value that was there are the same as before. -/
theorem part_iff (hg : m.Grows m') (hm : m.Whole) {v w : Value} (hv : v.Below m.heap.lists.size) :
    m'.heap.Part v w ↔ m.heap.Part v w := by
  constructor
  · intro hp
    cases hp with
    | @element l s hs =>
      rw [hg.items l hv] at hs
      rw [hg.get s (hm.intact s (.inr ⟨l, hs⟩))]
      exact .element hs
    | start => exact .start
    | stop => exact .stop
  · intro hp
    cases hp with
    | @element l s hs =>
      rw [← hg.get s (hm.intact s (.inr ⟨l, hs⟩))]
      rw [← hg.items l hv] at hs
      exact .element hs
    | start => exact .start
    | stop => exact .stop

/-- What is inside a value that was there is the same as before, at any depth. -/
theorem inside_iff (hg : m.Grows m') (hm : m.Whole) {v w : Value} (hv : v.Below m.heap.lists.size) :
    m'.heap.Inside v w ↔ m.heap.Inside v w := by
  constructor
  · intro h
    induction h with
    | refl => exact .refl
    | tail _ hp ih => exact ih.tail ((hg.part_iff hm (hm.below_of_inside hv ih)).mp hp)
  · intro h
    induction h with
    | refl => exact .refl
    | tail hin hp ih => exact ih.tail ((hg.part_iff hm (hm.below_of_inside hv hin)).mpr hp)

/-- Names hold the same values as before. -/
theorem holds_iff (hg : m.Grows m') (hm : m.Whole) (v : Value) : m'.Holds v ↔ m.Holds v := by
  have hget {name : String} {s : SlotId} (hs : m.env.get? name = some s) : m'.heap.get s = m.heap.get s :=
    hg.get s (hm.intact s (.inl ⟨name, hs⟩))
  constructor
  · rintro ⟨name, s, hs, hin⟩
    rw [hg.env] at hs
    rw [hget hs] at hin
    exact ⟨name, s, hs, (hg.inside_iff hm (hm.below s)).mp hin⟩
  · rintro ⟨name, s, hs, hin⟩
    refine ⟨name, s, by rw [hg.env, hs], ?_⟩
    rw [hget hs]
    exact (hg.inside_iff hm (hm.below s)).mpr hin

/-- What is new is out of reach. -/
theorem sameView (hg : m.Grows m') (hm : m.Whole) : m.SameView m' := by
  have hlist (l : ListId) (hl : m'.Holds (.list l)) : l < m.heap.lists.size :=
    hm.below_of_holds ((hg.holds_iff hm _).mp hl)
  refine ⟨hg.holds_iff hm, ?_, hlist⟩
  rintro s (⟨name, hs⟩ | ⟨l, hl, hs⟩)
  · rw [hg.env] at hs
    exact hm.intact s (.inl ⟨name, hs⟩)
  · rw [hg.items l (hlist l hl)] at hs
    exact hm.intact s (.inr ⟨l, hs⟩)

end Grows

end Machine

/-! ## Mutating instructions -/

namespace Interp.Prepares

variable {r : Interp} {m m₀ : Machine} {s : Stmt FuncId} {w : Write}

/-- Up to the write, quiet operands leave all that was there as it was. -/
theorem grows (h : r.Prepares m s w m₀) (hr : r.GrowsOnly) (hs : s.MutatesQuietly) : m.Grows m₀ := by
  cases h with
  | compoundName _ hvalue _ => exact (hr.expr hs.2).ok hvalue
  | compoundElement hcontainer hindex _ hvalue _ =>
    obtain ⟨htarget, hquiet⟩ := hs
    simp only [Expr.quiet, Bool.and_eq_true] at htarget
    exact (((hr.expr htarget.1).ok hcontainer).trans ((hr.expr htarget.2).ok hindex)).trans ((hr.expr hquiet).ok hvalue)
  | append htarget hvalue => exact ((hr.expr hs.1).ok htarget).trans ((hr.slot hs.2).ok hvalue)
  | insert htarget hindex hvalue _ =>
    exact (((hr.expr hs.1).ok htarget).trans ((hr.expr hs.2.1).ok hindex)).trans ((hr.slot hs.2.2).ok hvalue)
  | remove htarget hindex _ => exact ((hr.expr hs.1).ok htarget).trans ((hr.expr hs.2).ok hindex)

/-- The slot or the list that is written is there. -/
theorem lands (h : r.Prepares m s w m₀) (hr : Regime.whole.Obeys r) (hm : Regime.whole.Ready m) : w.Lands m₀.heap := by
  have hR := Regime.whole_lawful
  -- what an operand gives is there right then, and the operands after it take nothing away
  cases h with
  | compoundName hname hvalue _ =>
    exact hR.slot_changes ((hr.expr hm trivial).later_of_ok hvalue).changes (hm.env _ _ hname)
  | compoundElement hcontainer hindex hslot hvalue _ =>
    have h₁ := (hr.expr hm trivial).later_of_ok hcontainer
    have h₂ := (hr.expr h₁.ready trivial).later_of_ok hindex
    have h₃ := (hr.expr h₂.ready trivial).later_of_ok hvalue
    have hl := hR.list_changes h₂.changes ((hr.expr hm trivial).result _ _ hcontainer)
    exact hR.slot_changes h₃.changes (h₂.ready.heap.items hl (Heap.mem_items_of_slotAt hslot))
  | append htarget hvalue =>
    have h₁ := (hr.expr hm trivial).later_of_ok htarget
    have h₂ := (hr.slot h₁.ready trivial).later_of_ok hvalue
    exact hR.list_changes h₂.changes ((hr.expr hm trivial).result _ _ htarget)
  | insert htarget hindex hvalue _ =>
    have h₁ := (hr.expr hm trivial).later_of_ok htarget
    have h₂ := (hr.expr h₁.ready trivial).later_of_ok hindex
    have h₃ := (hr.slot h₂.ready trivial).later_of_ok hvalue
    exact hR.list_changes (h₂.trans h₃).changes ((hr.expr hm trivial).result _ _ htarget)
  | remove htarget hindex _ =>
    have h₁ := (hr.expr hm trivial).later_of_ok htarget
    have h₂ := (hr.expr h₁.ready trivial).later_of_ok hindex
    exact hR.list_changes h₂.changes ((hr.expr hm trivial).result _ _ htarget)

end Interp.Prepares

/-- A compound assignment, an `append`, an `insert` or a `remove` whose operands call nothing and read no input does all or nothing,
in every state. If it fails, for whatever reason, names, slots, lists, input and output are as they were; slots and lists may have
come in addition, to which no name leads. It succeeds exactly when its operands lead to a write: of a slot, with the value of the
operator between its value and the operand, or of a list, with one slot more or less. That slot or that list changes, whoever
shares it, and nothing else does. -/
theorem mutations_exact_and_atomic (limit fuel : Nat) (m : Machine) (s : Stmt FuncId) (hs : s.MutatesQuietly) :
    (∀ e m', (interp limit fuel).stmt s m = .error e m' → m.Grows m' ∧ (m.Whole → m.SameView m')) ∧
    (∀ flow m', (interp limit (fuel + 1)).stmt s m = .ok flow m' ↔
      flow = .completed ∧ ∃ w m₀, (interp limit fuel).Prepares m s w m₀ ∧ m' = { m₀ with heap := w.apply m₀.heap }) ∧
    ∀ w m₀, (interp limit fuel).Prepares m s w m₀ →
      let m' : Machine := { m₀ with heap := w.apply m₀.heap }
      m.Grows m₀ ∧ m.Changed m' (w.get m.heap) (w.items m.heap) ∧
        (m.Whole → (∀ t, m'.heap.get t = w.get m₀.heap t) ∧ ∀ l, m'.heap.items l = w.items m₀.heap l) := by
  refine ⟨fun e m' h => ?_, fun flow m' => ⟨fun h => ?_, ?_⟩, fun w m₀ h => ?_⟩
  · have hgrows : m.Grows m' := by
      cases fuel with
      | zero =>
        -- without fuel nothing is done
        cases h
        exact refl m
      | succ fuel => exact ((interp_growsOnly limit fuel).stmtForm fuel hs).located s.span m e m' h
    exact ⟨hgrows, hgrows.sameView⟩
  · exact Interp.prepares_of_stmtForm hs (Exec.located_eq_ok h)
  · rintro ⟨rfl, w, m₀, h, rfl⟩
    exact Exec.located_of_ok (Interp.stmtForm_of_prepares h fuel) s.span
  · have hgrows : m.Grows m₀ := h.grows (interp_growsOnly limit fuel) hs
    refine ⟨hgrows, w.changed hgrows, fun hm => ?_⟩
    have hobeys := interp_obeys Regime.whole_lawful limit fuel
    have hlands : w.Lands m₀.heap := h.lands hobeys (Machine.whole_iff_ready.mp hm)
    exact ⟨fun t => Write.get_apply (.inl hlands), fun l => Write.items_apply (.inl hlands)⟩

/-- A list that is inside itself, and whose first element has a name of its own. -/
def knotting : Program :=
  [.setVar none "xs" (.list none [.literal none (.int 1)]),
    .setVar none "x" (.subscript none (.getVar none "xs") (.literal none (.int 0))),
    .append none (.getVar none "xs") (.getVar none "xs")]

/-- The state after the program. -/
def knotted : Machine :=
  (knotting.runWith 9 .standard ⟨[]⟩ .unlimited).2

/-- Adds the element to itself, under its other name. -/
def doublingX : Stmt FuncId :=
  .compound none .add (.subscript none (.getVar none "xs") (.literal none (.int 0))) (.getVar none "x")

/-- Puts the list into itself, after a place that it does not have. -/
def insertingFarOff : Stmt FuncId :=
  .insert none (.getVar none "xs") (.literal none (.int 7)) (.list none [.getVar none "xs"])

/-- The element is doubled, and that is all, so that its name stands for twice as much. The list that was to be inserted is there,
and out of reach. -/
theorem knotted_mutations :
    let doubled : Machine := { knotted with heap := knotted.heap.set 0 (.int 2) }
    knotted.Whole ∧
    (interp 1000 9).stmt doublingX knotted = .ok .completed doubled ∧
    knotted.Changed doubled (Function.update knotted.heap.get 0 (.int 2)) knotted.heap.items ∧
    doubled.env.get? "x" = some 0 ∧ doubled.heap.get 0 = .int 2 ∧
    ∃ e m', (interp 1000 9).stmt insertingFarOff knotted = .error e m' ∧ m'.heap.lists.size = 2 ∧ knotted.Grows m' ∧
      knotted.SameView m' := by
  intro doubled
  have hwhole : knotted.Whole := Machine.whole_of_visits (knotting.visits_runWith 9 .standard ⟨[]⟩ .unlimited)
  have hprepares : (interp 1000 8).Prepares knotted doublingX (.slot 0 (.int 2)) knotted := .compoundElement rfl rfl rfl rfl rfl
  obtain ⟨-, hok, hwrite⟩ := mutations_exact_and_atomic 1000 8 knotted doublingX ⟨rfl, rfl⟩
  obtain ⟨hfails, -, -⟩ := mutations_exact_and_atomic 1000 9 knotted insertingFarOff ⟨rfl, rfl, rfl⟩
  obtain ⟨-, hchanged, hlands⟩ := hwrite _ _ hprepares
  refine ⟨hwhole, (hok _ _).mpr ⟨rfl, _, _, hprepares, rfl⟩, hchanged, rfl, (hlands hwhole).1 0, ⟨_, _, rfl, rfl, ?_⟩⟩
  obtain ⟨hgrows, hview⟩ := hfails _ _ rfl
  exact ⟨hgrows, hview hwhole⟩

end NodeScript
