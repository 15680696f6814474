import NodeScript.Value.Operation

/-!
# What calculations fail with

A calculation with values fails because of its values: a type that does not fit, an index that is out of range, a number without
a result. It never reports what only a run can come to, a stream that fails or a `return` outside functions, nor what is
wrong with a document (`Fault.Ordinary`). Each operation is taken as a whole here, so that whoever uses one need not look inside.
-/

namespace NodeScript

/-- A fault that is neither that of a stream nor that of a `return` outside functions, nor one of a document. -/
def Fault.Ordinary : Fault → Prop
  | .stream _ | .returnOutsideFunction => False
  | .unknownExpression _ | .unknownInstruction _ | .malformedNode _ => False
  | _ => True

/-- A calculation: it has a result, or its fault is an ordinary one. -/
def Calculates {α : Type} (c : Except Fault α) : Prop :=
  ∀ f, c = .error f → f.Ordinary

namespace Calculates

variable {α β : Type}

/-- A result is not a fault at all. -/
theorem ok (a : α) : Calculates (.ok a) :=
  fun _ h => nomatch h

/-- A calculation may fail at once, with an ordinary fault. -/
theorem error {f : Fault} (hf : f.Ordinary) : Calculates (.error f : Except Fault α) := by
  intro g hg
  cases hg
  exact hf

/-- What is calculated from the result of a calculation is a calculation. -/
theorem bind {c : Except Fault α} {g : α → Except Fault β} (hc : Calculates c) (hg : ∀ a, Calculates (g a)) :
    Calculates (c >>= g) := by
  cases c with
  | ok a => exact hg a
  | error f => exact error (hc f rfl)

/-- To change the result of a calculation brings no new fault. -/
theorem map {c : Except Fault α} (hc : Calculates c) (g : α → β) : Calculates (c.map g) := by
  cases c with
  | ok a => exact ok (g a)
  | error f => exact error (hc f rfl)

/-- A calculation done for each item of a list is one calculation. -/
theorem mapM {g : α → Except Fault β} {as : List α} (hg : ∀ a, Calculates (g a)) : Calculates (as.mapM g) := by
  induction as with
  | nil => exact ok []
  | cons a rest ih =>
    rw [List.mapM_cons]
    exact (hg a).bind fun b => ih.bind fun bs => ok (b :: bs)

end Calculates

namespace Value

open Calculates

/-! ## Numbers and texts -/

/-- Cutting off a fraction fails only for what no 64 bits hold. -/
theorem calculates_truncate (x : Float) : Calculates (truncate x) := by
  unfold truncate
  split
  · exact ok _
  · exact error trivial

/-- Between integers there are overflows, divisions by zero and powers without a result, and nothing worse. -/
theorem calculates_intArith (op : ArithOp) (a b : Int64) : Calculates (intArith op a b) := by
  cases op with
  | add | sub | mul =>
    dsimp only [intArith]
    split
    · exact ok _
    · exact error trivial
  | div =>
    dsimp only [intArith]
    split
    · exact error trivial
    · exact calculates_truncate _
  | mod =>
    dsimp only [intArith]
    split
    · exact error trivial
    · exact ok _
  | pow =>
    dsimp only [intArith]
    split
    · split
      · exact error trivial
      · exact calculates_truncate _
    · split
      · exact ok _
      · exact error trivial

/-- Between floats only a division, a remainder or a power can be without a result. -/
theorem calculates_floatArith (op : ArithOp) (a b : Float) : Calculates (floatArith op a b) := by
  cases op with
  | add | sub | mul => exact ok _
  | div | mod =>
    dsimp only [floatArith]
    split
    · exact error trivial
    · exact ok _
  | pow =>
    dsimp only [floatArith]
    split
    · exact error trivial
    split
    · exact error trivial
    split
    · exact error trivial
    · exact ok _

/-- A text that is no number is a fault of the text. -/
theorem calculates_floatOfText (s : String) : Calculates (floatOfText s) := by
  unfold floatOfText
  dsimp only
  split
  · exact ok _
  split
  · exact ok _
  split
  · exact ok _
  · exact error trivial

/-- Bounds that are neither integers nor truth values do not fit. -/
theorem calculates_bounds (start stop : Value) : Calculates (bounds start stop) := by
  unfold bounds
  split
  · exact ok _
  · exact error trivial

/-- Only numbers, truth values and strings have a text of their own; the other types do not fit. -/
theorem calculates_scalarText (v : Value) : Calculates v.scalarText := by
  cases v with
  | int | float | bool | string => exact ok _
  | _ => exact error trivial

/-- The text of a value fails no worse than the texts of the lists in it. -/
theorem calculates_renderWith {nested : ListId → Except Fault String} (hn : ∀ l, Calculates (nested l)) (v : Value) :
    Calculates (Heap.renderWith nested v) := by
  unfold Heap.renderWith
  split
  · exact hn _
  · exact (calculates_bounds _ _).bind fun _ => ok _
  · exact ok _
  · exact ok _
  · exact calculates_scalarText v

/-- To show a value is a calculation, however deep its lists are nested. -/
theorem calculates_render (h : Heap) (v : Value) : Calculates (h.render v) := by
  have hlist (fuel : Nat) (opened : List ListId) (l : ListId) : Calculates (h.renderList fuel opened l) := by
    induction fuel generalizing opened l with
    | zero => exact ok _
    | succ fuel ih =>
      unfold Heap.renderList
      split
      · exact ok _
      · exact (mapM fun v => calculates_renderWith (ih _) v).bind fun texts => ok _
  exact calculates_renderWith (hlist _ _) v

/-! ## Conversions and operators -/

/-- What does not become a float has the wrong type, or is a text without a number. -/
theorem calculates_coerceFloat (v : Value) : Calculates v.coerceFloat := by
  cases v with
  | int | float | bool => exact ok _
  | string s => exact calculates_floatOfText s
  | _ => exact error trivial

/-- What does not become an integer has the wrong type, is too large, or is a text without a number. -/
theorem calculates_toInt (v : Value) : Calculates v.toInt := by
  cases v with
  | int | bool => exact ok _
  | float x => exact (calculates_truncate x).map _
  | string s =>
    refine map ?_ _
    unfold intOfText
    split
    · exact ok _
    · exact error trivial
  | _ => exact error trivial

/-- Whether a value counts as true is a question that only ranges, functions and void do not answer. -/
theorem calculates_truth (h : Heap) (v : Value) : Calculates (v.truth h) := by
  cases v with
  | range | func | void => exact error trivial
  | _ => exact ok _

/-- Converting to text fails no worse than showing the value. -/
theorem calculates_toText (h : Heap) (v : Value) : Calculates (v.toText h) := by
  unfold toText
  split
  · exact calculates_render h _
  · exact calculates_render h _
  · exact calculates_scalarText v

/-- Each of the four conversions is a calculation. -/
theorem calculates_convert (h : Heap) (goal : Conversion) (v : Value) : Calculates (v.convert h goal) := by
  cases goal with
  | int => exact calculates_toInt v
  | float => exact (calculates_coerceFloat v).map _
  | bool => exact (calculates_truth h v).map _
  | string => exact (calculates_toText h v).map _

/-- The text behind a string is one of a list or of a scalar. -/
theorem calculates_suffixText (h : Heap) (v : Value) : Calculates (v.suffixText h) := by
  unfold suffixText
  split
  · exact calculates_render h _
  · exact calculates_scalarText v

/-- Arithmetic is a calculation for all types of operands: those that it is not made for do not fit. -/
theorem calculates_arith (h : Heap) (op : ArithOp) (left right : Value) : Calculates (arith h op left right) := by
  unfold arith
  split
  · exact (calculates_coerceFloat right).bind fun b => (calculates_floatArith op _ b).map _
  · exact (calculates_floatArith op _ _).map _
  · exact (calculates_intArith op _ _).map _
  · exact (calculates_intArith op _ _).map _
  · split
    · exact (calculates_suffixText h right).map _
    · exact error trivial
  · exact error trivial

/-- An operator for truth values does not take any others. -/
theorem calculates_boolFor (op : Operator) (v : Value) : Calculates (v.boolFor op) := by
  cases v with
  | bool b => exact ok b
  | _ => exact error trivial

/-- Each binary operator is a calculation; equality has a result for all values. -/
theorem calculates_binary (h : Heap) (op : BinOp) (left right : Value) : Calculates (binary h op left right) := by
  cases op with
  | arith op => exact calculates_arith h op left right
  | equal | notEqual => exact ok _
  | and | or | xor => exact (calculates_boolFor _ left).bind fun a => (calculates_boolFor _ right).bind fun b => ok _

/-- To negate is to need a truth value. -/
theorem calculates_negation (v : Value) : Calculates v.negation :=
  (calculates_boolFor .not v).map _

/-! ## Sequences -/

/-- An index that is no integer does not fit. -/
theorem calculates_index (v : Value) : Calculates v.index := by
  cases v with
  | int n => exact ok n
  | _ => exact error trivial

/-- An instruction for lists does not take any other values. -/
theorem calculates_listFor (op : Operator) (v : Value) : Calculates (v.listFor op) := by
  cases v with
  | list l => exact ok l
  | _ => exact error trivial

/-- Lists and strings have a length, and no other values do. -/
theorem calculates_length (h : Heap) (v : Value) : Calculates (v.length h) := by
  cases v with
  | list | string => exact ok _
  | _ => exact error trivial

/-- A loop goes over lists and ranges, and over nothing else. -/
theorem calculates_cursor (v : Value) : Calculates v.cursor := by
  cases v with
  | list l => exact ok _
  | range start stop => exact (calculates_bounds start stop).bind fun _ => ok _
  | _ => exact error trivial

/-- An index outside a list is an ordinary fault. -/
theorem calculates_slotAt (h : Heap) (l : ListId) (index : Int64) : Calculates (h.slotAt l index) := by
  unfold Heap.slotAt
  dsimp only
  split
  · exact ok _
  · exact error trivial

/-- To take a part of a value fails because of the value, of the index, or of both. -/
theorem calculates_subscript (h : Heap) (target index : Value) : Calculates (subscript h target index) := by
  cases target with
  | list l => exact (calculates_index index).bind fun i => (calculates_slotAt h l i).map _
  | range start stop => exact calculates_arith h .add start index
  | string s =>
    refine (calculates_index index).bind fun i => ?_
    unfold charAt
    dsimp only
    split
    · exact ok _
    · exact error trivial
  | _ => exact error trivial

/-- To join a sequence fails because of the sequence, of one of its parts, or of the separator. -/
theorem calculates_join (h : Heap) (sequence separator : Value) : Calculates (h.join sequence separator) := by
  have helements : Calculates (h.elements sequence) := by
    cases sequence with
    | list l => exact ok _
    | range start stop => exact (calculates_bounds start stop).bind fun _ => ok _
    | _ => exact error trivial
  cases separator with
  | string text => exact helements.bind fun _ => (mapM calculates_scalarText).bind fun texts => ok _
  | _ => exact error trivial

/-- To insert into a list fails before the list is changed, with an ordinary fault. -/
theorem calculates_insert (h : Heap) (target index : Value) (s : SlotId) : Calculates (insert h target index s) := by
  refine (calculates_listFor _ target).bind fun l => (calculates_index index).bind fun i => ?_
  unfold Heap.insert
  dsimp only
  split
  · exact ok _
  · exact error trivial

/-- To remove from a list fails before the list is changed, with an ordinary fault. -/
theorem calculates_remove (h : Heap) (target index : Value) : Calculates (remove h target index) := by
  refine (calculates_listFor _ target).bind fun l => (calculates_index index).bind fun i => bind ?_ fun _ => ok _
  unfold Heap.remove
  dsimp only
  split
  · exact ok _
  · exact error trivial

end Value

end NodeScript
