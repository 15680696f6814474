import NodeScript.Proofs.Value.Heap
import NodeScript.Value.Operation

/-!
# The types of results

Which types the values have that the operations make. An operation makes scalars only; the one way to get another value out of
one is to take an element of a list. So functions, lists and ranges come from the nodes that are written for them, and from
slots.
-/

namespace NodeScript

namespace Value

variable {h : Heap} {v w left right : Value}

/-- A number, a truth value or a text. -/
def IsScalar (v : Value) : Prop :=
  v.type ∈ [.int, .float, .bool, .string]

/-- A result that was changed comes from a result. -/
theorem of_map_eq_ok {α β : Type} {f : α → β} {r : Except Fault α} {b : β} (hr : r.map f = .ok b) :
    ∃ a, r = .ok a ∧ f a = b := by
  cases r with
  | error e => cases hr
  | ok a => exact ⟨a, rfl, by simpa [Except.map] using hr⟩

/-- The result of two calculations comes from the result of the first one. -/
theorem of_bind_eq_ok {α β : Type} {f : α → Except Fault β} {r : Except Fault α} {b : β} (hr : r >>= f = .ok b) :
    ∃ a, r = .ok a ∧ f a = .ok b := by
  cases r with
  | error e => cases hr
  | ok a => exact ⟨a, rfl, hr⟩

/-- Only lists are taken where a list is needed. -/
theorem of_listFor_eq_ok {op : Operator} {l : ListId} (h : v.listFor op = .ok l) : v = .list l := by
  cases v with
  | list l' =>
    cases h
    rfl
  | _ => cases h

/-- Only integers are taken where an index is needed. -/
theorem of_index_eq_ok {n : Int64} (h : v.index = .ok n) : v = .int n := by
  cases v with
  | int n' =>
    cases h
    rfl
  | _ => cases h

/-- Arithmetic gives integers, floats and strings. -/
theorem arith_type {op : ArithOp} (hv : arith h op left right = .ok v) : v.type ∈ [.int, .float, .string] := by
  unfold arith at hv
  split at hv
  · obtain ⟨b, -, hv⟩ := of_bind_eq_ok hv
    obtain ⟨x, -, rfl⟩ := of_map_eq_ok hv
    simp [type]
  · obtain ⟨x, -, rfl⟩ := of_map_eq_ok hv
    simp [type]
  · obtain ⟨n, -, rfl⟩ := of_map_eq_ok hv
    simp [type]
  · obtain ⟨n, -, rfl⟩ := of_map_eq_ok hv
    simp [type]
  · split at hv
    · obtain ⟨text, -, rfl⟩ := of_map_eq_ok hv
      simp [type]
    · cases hv
  · cases hv

theorem isScalar_of_type (hv : v.type ∈ [.int, .float, .string]) : v.IsScalar := by
  simp only [List.mem_cons, List.not_mem_nil, or_false] at hv
  rcases hv with hv | hv | hv <;> simp [IsScalar, hv]

theorem arith_isScalar {op : ArithOp} (hv : arith h op left right = .ok v) : v.IsScalar :=
  isScalar_of_type (arith_type hv)

theorem literal_isScalar (l : Literal) : l.value.IsScalar := by
  cases l <;> simp [IsScalar, Literal.value, type]

/-- Conversions make scalars. -/
theorem convert_isScalar {goal : Conversion} (hw : v.convert h goal = .ok w) : w.IsScalar := by
  cases goal with
  | int =>
    cases v with
    | int | bool =>
      cases hw
      simp [IsScalar, type]
    | float | string =>
      obtain ⟨n, -, rfl⟩ := of_map_eq_ok hw
      simp [IsScalar, type]
    | _ => cases hw
  | float | bool | string =>
    obtain ⟨x, -, rfl⟩ := of_map_eq_ok hw
    simp [IsScalar, type]

/-- Operators between truth values make truth values. -/
theorem logic_isScalar {op : BinOp} {f : Bool → Bool → Bool} (hv : logic op f left right = .ok v) : v.IsScalar := by
  obtain ⟨a, -, hv⟩ := of_bind_eq_ok hv
  obtain ⟨b, -, hv⟩ := of_bind_eq_ok hv
  cases hv
  simp [IsScalar, type]

/-- Every binary operator makes scalars. -/
theorem binary_isScalar {op : BinOp} (hv : binary h op left right = .ok v) : v.IsScalar := by
  cases op with
  | arith op => exact arith_isScalar hv
  | equal | notEqual =>
    cases hv
    simp [IsScalar, type]
  | and | or | xor => exact logic_isScalar hv

theorem negation_isScalar (hw : v.negation = .ok w) : w.IsScalar := by
  obtain ⟨b, -, rfl⟩ := of_map_eq_ok hw
  simp [IsScalar, type]

/-- A length is an integer. -/
theorem length_isScalar (hw : v.length h = .ok w) : w.IsScalar := by
  cases v with
  | list | string =>
    cases hw
    simp [IsScalar, type]
  | _ => cases hw

/-- What is joined is a string. -/
theorem join_isScalar (hw : h.join v left = .ok w) : w.IsScalar := by
  cases left with
  | string text =>
    obtain ⟨elements, -, hw⟩ := of_bind_eq_ok hw
    obtain ⟨texts, -, hw⟩ := of_bind_eq_ok hw
    cases hw
    simp [IsScalar, type]
  | _ => cases hw

/-- A character of a string is a string. -/
theorem charAt_isScalar {s : String} {index : Int64} (hw : charAt s index = .ok w) : w.IsScalar := by
  unfold charAt at hw
  dsimp only at hw
  split at hw
  · cases hw
    simp [IsScalar, type]
  · cases hw

/-- A part of a sequence is what a slot of a list holds, or a scalar. -/
theorem subscript_cases (hw : subscript h v right = .ok w) :
    (∃ l, v = .list l ∧ ∃ s ∈ h.items l, w = h.get s) ∨ w.IsScalar := by
  cases v with
  | list l =>
    obtain ⟨i, -, hw⟩ := of_bind_eq_ok hw
    obtain ⟨s, hs, rfl⟩ := of_map_eq_ok hw
    exact .inl ⟨l, rfl, s, Heap.mem_items_of_slotAt hs, rfl⟩
  | range start stop => exact .inr (arith_isScalar hw)
  | string s =>
    obtain ⟨i, -, hw⟩ := of_bind_eq_ok hw
    exact .inr (charAt_isScalar hw)
  | _ => cases hw

end Value

end NodeScript
