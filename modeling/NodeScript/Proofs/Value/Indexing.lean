import NodeScript.Proofs.Run.Step
import NodeScript.Proofs.Value.Heap
import NodeScript.Proofs.Value.Integer

/-!
# Positions in lists and strings

An index from zero on counts from the start, and a negative one from the end; an element is taken from, or taken out of, a place
of the list, and put before a place or at the end (`place?_of_reaches`, `gap?_of_reaches`). What is put in at an index is taken
out at the same index, or at the one before it if it is negative, as the list is longer then (`Heap.reaches_gap`). A string
behaves as the list of its characters (`Value.subscript_string`).
-/

namespace NodeScript

/-! ## Indices -/

/-- The place that an index counts to in a sequence of a length. -/
def position (index : Int64) (length : Nat) : Nat :=
  (if index.toInt < 0 then length + index.toInt else index.toInt).toNat

/-- The index counts to a place of a sequence of that length. -/
def ReachesPlace (index : Int64) (length : Nat) : Prop :=
  -length ≤ index.toInt ∧ index.toInt < length

/-- The index counts to a place of a sequence of that length, or to its end. -/
def ReachesGap (index : Int64) (length : Nat) : Prop :=
  -length ≤ index.toInt ∧ index.toInt ≤ length

section

variable {index : Int64} {length : Nat}

/-- An index that counts to a place has that place. -/
theorem place?_of_reaches (h : ReachesPlace index length) : place? index length = some (position index length) := by
  obtain ⟨hlow, hhigh⟩ := h
  simp only [place?, position]
  split <;> rw [if_pos (by omega)]
  rw [Int.add_comm]

/-- An index that counts to no place has none. -/
theorem place?_of_not_reaches (h : ¬ReachesPlace index length) : place? index length = none := by
  rw [ReachesPlace] at h
  simp only [place?]
  split <;> exact if_neg (by omega)

/-- An index that counts to a gap has that gap. -/
theorem gap?_of_reaches (h : ReachesGap index length) : gap? index length = some (position index length) := by
  obtain ⟨hlow, hhigh⟩ := h
  simp only [gap?, position]
  split <;> rw [if_pos (by omega)]
  rw [Int.add_comm]

/-- An index that counts to no gap has none. -/
theorem gap?_of_not_reaches (h : ¬ReachesGap index length) : gap? index length = none := by
  rw [ReachesGap] at h
  simp only [gap?]
  split <;> exact if_neg (by omega)

theorem position_le (h : ReachesGap index length) : position index length ≤ length :=
  le_of_gap? (gap?_of_reaches h)

/-- The index that counts to the same place once the sequence is longer by one. -/
theorem place?_longer {back : Int64} (h : ReachesGap index length)
    (hback : back.toInt = if index.toInt < 0 then index.toInt - 1 else index.toInt) :
    place? back (length + 1) = some (position index length) := by
  obtain ⟨hlow, hhigh⟩ := h
  have hreaches : ReachesPlace back (length + 1) := by
    rw [ReachesPlace]
    split at hback <;> omega
  rw [place?_of_reaches hreaches, position, position]
  split at hback <;> grind

/-- The index before a negative one, unless it is the least one of all, and any other index itself. -/
theorem toInt_indexBack (h : index ≠ Int64.minValue) :
    (if index < 0 then index - 1 else index).toInt = if index.toInt < 0 then index.toInt - 1 else index.toInt := by
  have hlt : index < 0 ↔ index.toInt < 0 := Int64.lt_iff_toInt_lt
  have hmin : index.toInt ≠ -2 ^ 63 := fun hmin => h (Int64.toInt_inj.mp (hmin.trans Int64.toInt_minValue.symm))
  have hlow := index.le_toInt
  have hhigh := index.toInt_lt
  by_cases hneg : index < 0
  · have hone : (-1 : Int64).toInt = -1 := rfl
    have hfits : FitsInt64 (index.toInt + (-1 : Int64).toInt) := by
      rw [hone]
      constructor <;> omega
    rw [if_pos hneg, if_pos (hlt.mp hneg), Int64.sub_eq_add_neg, toInt_add_of_fits hfits, hone]
    rfl
  · rw [if_neg hneg, if_neg (mt hlt.mpr hneg)]

end

/-! ## Lists -/

namespace Heap

/-- The second heap is the first one with other slots in one list. -/
structure Relisted (h : Heap) (l : ListId) (xs : List SlotId) (h' : Heap) : Prop where
  slots : h'.slots = h.slots
  size : h'.lists.size = h.lists.size
  items : (h'.items l).toList = xs
  others : ∀ k, k ≠ l → h'.items k = h.items k

variable {h : Heap} {l : ListId} {index : Int64}

/-- To give a list other slots changes that list only. -/
theorem relisted_modifyList (hl : l < h.lists.size) (items : Array SlotId) :
    h.Relisted l items.toList (h.modifyList l fun _ => items) where
  slots := rfl
  size := by simp [modifyList]
  items := by rw [items_modifyList, if_pos ⟨rfl, hl⟩]
  others k hk := by rw [items_modifyList, if_neg fun hlk => hk hlk.1.symm]

/-- A list that is changed twice, and has its slots back then, is as it was. -/
theorem modifyList_modifyList_items (h : Heap) (l : ListId) (items : Array SlotId) :
    (h.modifyList l fun _ => items).modifyList l (fun _ => h.items l) = h := by
  obtain ⟨slots, lists⟩ := h
  simp only [modifyList, Heap.items, mk.injEq, true_and]
  apply Array.ext_getElem?
  intro k
  rw [Array.getElem?_modify, Array.getElem?_modify]
  by_cases hk : l = k
  · subst hk
    cases hl : lists[l]? <;> simp [Array.getD_eq_getD_getElem?, hl]
  · simp [hk]

theorem slotAt_of_place? {p : Nat} {s : SlotId} (hplace : place? index (h.items l).size = some p)
    (hs : (h.items l)[p]? = some s) : h.slotAt l index = .ok s := by
  simp [slotAt, hplace, hs]

/-- To insert into a row is to cut it at the place and put the slot between. -/
theorem insertIdx_eq_take_append {slots : List SlotId} {p : Nat} (hp : p ≤ slots.length) (s : SlotId) :
    slots.insertIdx p s = slots.take p ++ s :: slots.drop p := by
  induction slots generalizing p with
  | nil =>
    obtain rfl : p = 0 := Nat.le_zero.mp hp
    rfl
  | cons t rest ih =>
    cases p with
    | zero => rfl
    | succ p =>
      rw [List.insertIdx_succ_cons, ih (Nat.le_of_succ_le_succ hp), List.take_succ_cons, List.drop_succ_cons, List.cons_append]

/-- What a list holds at a place is found there, and can be taken out. -/
theorem reaches_place (hl : l < h.lists.size) (hreaches : ReachesPlace index (h.items l).toList.length) :
    let xs := (h.items l).toList
    let p := position index xs.length
    ∃ s h', xs[p]? = some s ∧ h.slotAt l index = .ok s ∧ h.remove l index = .ok (h.get s, h') ∧
      h.Relisted l (xs.take p ++ xs.drop (p + 1)) h' := by
  intro xs p
  have hplace : place? index (h.items l).size = some p := place?_of_reaches hreaches
  have hlt : p < (h.items l).size := lt_of_place? hplace
  have hs : (h.items l)[p]? = some (h.items l)[p] := Array.getElem?_eq_getElem hlt
  refine ⟨_, _, by rw [Array.getElem?_toList, hs], slotAt_of_place? hplace hs, remove_of_getElem? hplace hs, ?_⟩
  rw [← List.eraseIdx_eq_take_drop_succ, ← Array.toList_eraseIdx]
  exact relisted_modifyList hl _

/-- A slot that is put into a list at a gap is there afterwards, and taking it out again gives the heap as it was. -/
theorem reaches_gap (hl : l < h.lists.size) (hreaches : ReachesGap index (h.items l).toList.length) (s : SlotId) :
    let xs := (h.items l).toList
    let p := position index xs.length
    ∃ h', h.insert l index s = .ok h' ∧ h.Relisted l (xs.take p ++ s :: xs.drop p) h' ∧
      ∀ back : Int64, back.toInt = (if index.toInt < 0 then index.toInt - 1 else index.toInt) →
        h'.remove l back = .ok (h.get s, h) := by
  intro xs p
  have hgap : gap? index (h.items l).size = some p := gap?_of_reaches hreaches
  have hp : p ≤ xs.length := position_le hreaches
  refine ⟨_, insert_of_gap? hgap s, ?_, fun back hback => ?_⟩
  · rw [← insertIdx_eq_take_append hp, ← Array.toList_insertIdx (le_of_gap? hgap)]
    exact relisted_modifyList hl _
  · have hitems : (h.modifyList l fun _ => (h.items l).insertIdx p s (le_of_gap? hgap)).items l =
        (h.items l).insertIdx p s (le_of_gap? hgap) := by
      rw [items_modifyList, if_pos ⟨rfl, hl⟩]
    have hplace : place? back ((h.modifyList l fun _ => (h.items l).insertIdx p s (le_of_gap? hgap)).items l).size = some p := by
      rw [hitems, Array.size_insertIdx]
      exact place?_longer hreaches hback
    rw [remove_of_getElem? hplace (s := s) (by rw [hitems, Array.getElem?_insertIdx_self]), get_modifyList]
    simp only [hitems, Array.eraseIdx_insertIdx_self]
    rw [modifyList_modifyList_items]

/-- An index that counts to no place of the list is out of range, and the fault names it with the length. -/
theorem not_reaches_place (hnot : ¬ReachesPlace index (h.items l).toList.length) :
    h.slotAt l index = .error (.indexOutOfRange index (h.items l).toList.length) ∧
      h.remove l index = .error (.indexOutOfRange index (h.items l).toList.length) := by
  have hplace : place? index (h.items l).size = none := place?_of_not_reaches hnot
  simp [slotAt, remove, hplace]

/-- An index that counts to no gap of the list is out of range, and the fault names it with the length. -/
theorem not_reaches_gap (hnot : ¬ReachesGap index (h.items l).toList.length) (s : SlotId) :
    h.insert l index s = .error (.indexOutOfRange index (h.items l).toList.length) := by
  have hgap : gap? index (h.items l).size = none := gap?_of_not_reaches hnot
  simp [insert, hgap]

end Heap

namespace Value

/-- To remove from a list by an integer is to take the slot out of the heap's list. -/
theorem remove_list (h : Heap) (l : ListId) (i : Int64) : remove h (.list l) (.int i) = (h.remove l i).map Prod.snd := by
  have hstep : remove h (.list l) (.int i) = h.remove l i >>= fun found => pure found.2 := rfl
  rw [hstep]
  cases h.remove l i <;> rfl

/-! ## Strings -/

/-- The characters of a string, each one as a string. -/
def characters (text : String) : List Value :=
  text.toList.map fun c => .string (String.singleton c)

variable {h : Heap} {l : ListId} {text : String}

theorem size_of_characters (hl : h.values l = characters text) : (h.items l).size = text.toList.length := by
  simpa [Heap.values, characters] using congrArg List.length hl

theorem length_string (hl : h.values l = characters text) : length h (.string text) = length h (.list l) := by
  simp only [length, size_of_characters hl]

/-- A string has the parts that the list of its characters has, and the same faults. -/
theorem subscript_string (hl : h.values l = characters text) (index : Value) :
    subscript h (.string text) index = subscript h (.list l) index := by
  cases index with
  | int i =>
    have hlist : subscript h (.list l) (.int i) = (h.slotAt l i).map h.get := rfl
    have hstring : subscript h (.string text) (.int i) = charAt text i := rfl
    rw [hlist, hstring, charAt, Heap.slotAt]
    simp only [size_of_characters hl]
    cases hplace : place? i text.toList.length with
    | none => rfl
    | some p =>
      have hvalue : (h.values l)[p]? = (characters text)[p]? := by rw [hl]
      rw [Heap.values, characters, List.getElem?_map, List.getElem?_map, Array.getElem?_toList] at hvalue
      simp only [Option.bind_some]
      cases hslot : (h.items l)[p]? <;> cases hchar : text.toList[p]? <;> simp_all [Except.map]
  | _ => rfl

end Value

/-- Lists are read and changed at the positions that their indices count to. A slot is taken from a list, or out of it, exactly at
the indices from minus the length on and below the length, and is put into it at the length too; every other index is out of
range, and leaves the state as it was. What was put in is taken out again at the same index, or at the one before it if it is
negative (the least index of all has none before it), which gives the heap as it was. A string has the length and the parts of a
list of its characters, and the same faults. -/
theorem positions_in_lists_and_strings (m : Machine) (l : ListId) (hl : l < m.heap.lists.size) :
    let h := m.heap
    let xs := (h.items l).toList
    (∀ i : Int64, let p := position i xs.length
      let fault : Fault := .indexOutOfRange i xs.length
      (ReachesPlace i xs.length ∧ (∃ s h', xs[p]? = some s ∧ h.slotAt l i = .ok s ∧
          Value.subscript h (.list l) (.int i) = .ok (h.get s) ∧ h.remove l i = .ok (h.get s, h') ∧
          Exec.update (fun h => Value.remove h (.list l) (.int i)) m = .ok () { m with heap := h' } ∧
          h.Relisted l (xs.take p ++ xs.drop (p + 1)) h') ∨
        ¬ReachesPlace i xs.length ∧ h.slotAt l i = .error fault ∧ Value.subscript h (.list l) (.int i) = .error fault ∧
          h.remove l i = .error fault ∧
          Exec.update (fun h => Value.remove h (.list l) (.int i)) m = .error (.failed ⟨fault, none⟩) m) ∧
      ∀ s, ReachesGap i xs.length ∧ (∃ h', h.insert l i s = .ok h' ∧
          Exec.update (fun h => Value.insert h (.list l) (.int i) s) m = .ok () { m with heap := h' } ∧
          h.Relisted l (xs.take p ++ s :: xs.drop p) h' ∧
          (i ≠ Int64.minValue → h'.remove l (if i < 0 then i - 1 else i) = .ok (h.get s, h))) ∨
        ¬ReachesGap i xs.length ∧ h.insert l i s = .error fault ∧
          Exec.update (fun h => Value.insert h (.list l) (.int i) s) m = .error (.failed ⟨fault, none⟩) m) ∧
    ∀ text, h.values l = Value.characters text →
      Value.length h (.string text) = Value.length h (.list l) ∧
        ∀ index, Value.subscript h (.string text) index = Value.subscript h (.list l) index := by
  intro h xs
  refine ⟨fun i => ⟨?_, fun s => ?_⟩, fun text htext => ⟨Value.length_string htext, Value.subscript_string htext⟩⟩
  · have hsubscript : Value.subscript h (.list l) (.int i) = (h.slotAt l i).map h.get := rfl
    have hvalue := Value.remove_list h l i
    by_cases hreaches : ReachesPlace i xs.length
    · obtain ⟨s, h', hs, hslot, hremove, hrelisted⟩ := Heap.reaches_place hl hreaches
      refine .inl ⟨hreaches, s, h', hs, hslot, by rw [hsubscript, hslot]; rfl, hremove, ?_, hrelisted⟩
      exact Exec.update_of_ok (by rw [hvalue, hremove]; rfl)
    · obtain ⟨hslot, hremove⟩ := Heap.not_reaches_place hreaches
      refine .inr ⟨hreaches, hslot, by rw [hsubscript, hslot]; rfl, hremove, ?_⟩
      exact Exec.update_of_error (by rw [hvalue, hremove]; rfl)
  · have hvalue : Value.insert h (.list l) (.int i) s = h.insert l i s := rfl
    by_cases hreaches : ReachesGap i xs.length
    · obtain ⟨h', hinsert, hrelisted, hback⟩ := Heap.reaches_gap hl hreaches s
      refine .inl ⟨hreaches, h', hinsert, Exec.update_of_ok (hvalue.trans hinsert), hrelisted, fun hmin => hback _ ?_⟩
      exact toInt_indexBack hmin
    · have hinsert := Heap.not_reaches_gap hreaches s
      exact .inr ⟨hreaches, hinsert, Exec.update_of_error (hvalue.trans hinsert)⟩

/-- A slot goes before the last one of two characters, and comes out again at the index before; the last character is found at the
same index in the list and in the string. -/
theorem twoCharacters_positions :
    let h : Heap := ⟨#[.string "a", .string "é", .int 5], #[#[0, 1]]⟩
    h.values 0 = Value.characters "aé" ∧
      (∃ h', h.insert 0 (-1) 2 = .ok h' ∧ (h'.items 0).toList = [0, 2, 1] ∧ h'.remove 0 (-2) = .ok (.int 5, h)) ∧
      Value.subscript h (.string "aé") (.int (-1)) = Value.subscript h (.list 0) (.int (-1)) := by
  intro h
  have hcharacters : h.values 0 = Value.characters "aé" := by cbv
  obtain ⟨hpositions, hstrings⟩ := positions_in_lists_and_strings ⟨.empty, h, ⟨[]⟩, .unlimited, 0⟩ 0 (by decide)
  refine ⟨hcharacters, ?_, (hstrings "aé" hcharacters).2 _⟩
  rcases (hpositions (-1)).2 2 with ⟨-, h', hinsert, -, hrelisted, hback⟩ | ⟨hnot, -⟩
  · exact ⟨h', hinsert, hrelisted.items, hback (by decide)⟩
  · exact absurd ⟨by decide, by decide⟩ hnot

end NodeScript
