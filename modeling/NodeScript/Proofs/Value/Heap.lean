import NodeScript.Value.Sequence

/-!
# Reading a changed heap

What slots and lists hold after each of the changes a heap can go through. A change of a slot leaves every list as it is, a
change of a list leaves every slot, and each touches one slot or one list only.
-/

namespace NodeScript

/-! ## Positions -/

/-- A place is one of those that the sequence has. -/
theorem lt_of_place? {index : Int64} {length i : Nat} (h : place? index length = some i) : i < length := by
  simp only [place?, Option.ite_none_right_eq_some, Option.some.injEq] at h
  omega

/-- A gap is before a place of the sequence, or at its end. -/
theorem le_of_gap? {index : Int64} {length i : Nat} (h : gap? index length = some i) : i ≤ length := by
  simp only [gap?, Option.ite_none_right_eq_some, Option.some.injEq] at h
  omega

/-! ## Slots and lists -/

namespace Heap

variable (h : Heap)

theorem get_alloc (v : Value) (s : SlotId) : (h.alloc v).2.get s = if s = h.slots.size then v else h.get s := by
  simp only [get, alloc, Array.getD_eq_getD_getElem?, Array.getElem?_push]
  split <;> rfl

/-- A slot that is written holds the value, if it is there, and the others hold theirs. -/
theorem get_set (s t : SlotId) (v : Value) : (h.set s v).get t = if s = t ∧ t < h.slots.size then v else h.get t := by
  simp only [get, set, Array.getD_eq_getD_getElem?, Array.getElem?_setIfInBounds]
  grind

@[simp] theorem get_newList (slots : Array SlotId) (s : SlotId) : (h.newList slots).2.get s = h.get s := rfl

@[simp] theorem get_modifyList (l : ListId) (f : Array SlotId → Array SlotId) (s : SlotId) :
    (h.modifyList l f).get s = h.get s := rfl

@[simp] theorem items_alloc (v : Value) (l : ListId) : (h.alloc v).2.items l = h.items l := rfl

@[simp] theorem items_set (s : SlotId) (v : Value) (l : ListId) : (h.set s v).items l = h.items l := rfl

/-- A new list has its slots, and the others have theirs. -/
theorem items_newList (slots : Array SlotId) (l : ListId) :
    (h.newList slots).2.items l = if l = h.lists.size then slots else h.items l := by
  simp only [items, newList, Array.getD_eq_getD_getElem?, Array.getElem?_push]
  split <;> rfl

/-- A list that is changed has its new slots, if it is there, and the others have theirs. -/
theorem items_modifyList (l k : ListId) (f : Array SlotId → Array SlotId) :
    (h.modifyList l f).items k = if l = k ∧ k < h.lists.size then f (h.items k) else h.items k := by
  simp only [items, modifyList, Array.getD_eq_getD_getElem?, Array.getElem?_modify]
  grind

/-- There is nothing in a slot that does not exist. -/
theorem get_of_size_le {s : SlotId} (hs : h.slots.size ≤ s) : h.get s = .void := by
  simp [get, Array.getD_eq_getD_getElem?, hs]

/-- There is nothing in a list that does not exist. -/
theorem items_of_size_le {l : ListId} (hl : h.lists.size ≤ l) : h.items l = #[] := by
  simp [items, Array.getD_eq_getD_getElem?, hl]

variable {h}

/-- A list has elements only if it exists. -/
theorem lt_size_of_mem_items {l : ListId} {s : SlotId} (hs : s ∈ h.items l) : l < h.lists.size := by
  rcases Nat.lt_or_ge l h.lists.size with hl | hl
  · exact hl
  · rw [h.items_of_size_le hl] at hs
    exact absurd hs (Array.not_mem_empty s)

/-- The slot at an index is one of the list's. -/
theorem mem_items_of_slotAt {l : ListId} {index : Int64} {s : SlotId} (hs : h.slotAt l index = .ok s) : s ∈ h.items l := by
  unfold slotAt at hs
  dsimp only at hs
  split at hs
  · cases hs
    obtain ⟨i, -, hi⟩ := Option.bind_eq_some_iff.mp ‹_›
    exact Array.mem_of_getElem? hi
  · cases hs

/-! ## Elements put into lists and taken out -/

/-- A change of a list depends on what it makes of the list as it is. -/
theorem modifyList_congr {h : Heap} {l : ListId} {f g : Array SlotId → Array SlotId} (hfg : f (h.items l) = g (h.items l)) :
    h.modifyList l f = h.modifyList l g := by
  simp only [modifyList, mk.injEq, true_and]
  apply Array.ext_getElem?
  intro k
  rw [Array.getElem?_modify, Array.getElem?_modify]
  by_cases hk : l = k
  · subst hk
    cases hl : h.lists[l]? with
    | none => simp
    | some slots =>
      have hslots : h.items l = slots := by simp [items, Array.getD_eq_getD_getElem?, hl]
      rw [hslots] at hfg
      simp [hfg]
  · simp [hk]

/-- A slot goes to the end of a list, and nothing else changes. -/
theorem append_eq (h : Heap) (l : ListId) (s : SlotId) : h.append l s = h.modifyList l fun _ => (h.items l).push s :=
  modifyList_congr rfl

/-- A slot goes into a list at a gap that the list has, and nothing else changes. -/
theorem insert_of_gap? {h : Heap} {l : ListId} {index : Int64} {i : Nat} (hgap : gap? index (h.items l).size = some i)
    (s : SlotId) : h.insert l index s = .ok (h.modifyList l fun _ => (h.items l).insertIdx i s (le_of_gap? hgap)) := by
  simp only [insert, hgap, Except.ok.injEq]
  apply modifyList_congr
  rw [Array.insertIdxIfInBounds, dif_pos (le_of_gap? hgap)]

/-- To insert is to change one list at a gap that the index counts to. -/
theorem insert_eq_ok {h h' : Heap} {l : ListId} {index : Int64} {s : SlotId} (hi : h.insert l index s = .ok h') :
    ∃ (i : Nat) (hgap : gap? index (h.items l).size = some i),
      h' = h.modifyList l fun _ => (h.items l).insertIdx i s (le_of_gap? hgap) := by
  rcases Option.eq_none_or_eq_some (gap? index (h.items l).size) with hgap | ⟨i, hgap⟩
  · simp only [insert, hgap] at hi
    cases hi
  · rw [insert_of_gap? hgap] at hi
    cases hi
    exact ⟨i, hgap, rfl⟩

/-- The element at a place is taken out, with its value, and nothing else changes. -/
theorem remove_of_getElem? {h : Heap} {l : ListId} {index : Int64} {i : Nat} {s : SlotId}
    (hplace : place? index (h.items l).size = some i) (hs : (h.items l)[i]? = some s) :
    h.remove l index = .ok (h.get s, h.modifyList l fun _ => (h.items l).eraseIdx i (lt_of_place? hplace)) := by
  simp only [remove, hplace, Option.bind_some, hs, Option.map_some, Except.ok.injEq, Prod.mk.injEq, true_and]
  apply modifyList_congr
  rw [Array.eraseIdxIfInBounds, dif_pos (lt_of_place? hplace)]

/-- The element that is taken out of a list was at a place that the list has, and nothing else changes. -/
theorem remove_of_place? {h : Heap} {l : ListId} {index : Int64} {i : Nat} (hplace : place? index (h.items l).size = some i) :
    ∃ v, h.remove l index = .ok (v, h.modifyList l fun _ => (h.items l).eraseIdx i (lt_of_place? hplace)) :=
  ⟨_, remove_of_getElem? hplace (Array.getElem?_eq_getElem (lt_of_place? hplace))⟩

/-- To remove is to change one list at a place that the index counts to. -/
theorem remove_eq_ok {h h' : Heap} {l : ListId} {index : Int64} {v : Value} (hr : h.remove l index = .ok (v, h')) :
    ∃ (i : Nat) (hplace : place? index (h.items l).size = some i),
      h' = h.modifyList l fun _ => (h.items l).eraseIdx i (lt_of_place? hplace) := by
  rcases Option.eq_none_or_eq_some (place? index (h.items l).size) with hplace | ⟨i, hplace⟩
  · simp only [remove, hplace, Option.bind_none] at hr
    cases hr
  · obtain ⟨w, hw⟩ := remove_of_place? hplace
    rw [hw] at hr
    cases hr
    exact ⟨i, hplace, rfl⟩

end Heap

end NodeScript
