import Mathlib.Data.List.Sort
import NodeScript.LineDiff

/-!
# Differences are minimal scripts

A script says which lines of an old text go and which lines of a new one come (`LineDiff.IsScript`): what is left of the two texts
is then the same. The changes that the table gives are a script, and what they leave is as long as any common subsequence can be,
so that no script has fewer entries. The table is first put into the form of a plain recursion on the two ends, `LineDiff.solve`,
which all the proofs follow.
-/

namespace NodeScript

/-- The line that a change removes, with its number. -/
def LineChange.removed? : LineChange → Option (String × Nat)
  | removed n line => some (line, n)
  | added _ _ => none

/-- The line that a change adds, with its number. -/
def LineChange.added? : LineChange → Option (String × Nat)
  | removed _ _ => none
  | added n line => some (line, n)

namespace LineDiff

/-! ## Scripts -/

/-- The lines that some changes remove, and their numbers. -/
def removals (changes : List LineChange) : List (String × Nat) :=
  changes.filterMap LineChange.removed?

/-- The lines that some changes add, and their numbers. -/
def additions (changes : List LineChange) : List (String × Nat) :=
  changes.filterMap LineChange.added?

/-- Lines of a text with their numbers: the numbers grow, and each line is the one with its number, counted from 1. -/
structure Picks (lines : List String) (picked : List (String × Nat)) : Prop where
  increasing : picked.Pairwise (·.2 < ·.2)
  line : ∀ p ∈ picked, 1 ≤ p.2 ∧ lines[p.2 - 1]? = some p.1

/-- What is left of lines, the first of which has number `i`, without those of the given numbers. -/
def without (numbers : List Nat) : Nat → List String → List String
  | _, [] => []
  | i, a :: lines => if i ∈ numbers then without numbers (i + 1) lines else a :: without numbers (i + 1) lines

/-- What changes leave of the old lines. -/
def leftOver (old : List String) (changes : List LineChange) : List String :=
  without ((removals changes).map Prod.snd) 1 old

/-- Changes from old lines to new ones: without the removed lines, the old ones are the new ones without the added lines. -/
structure IsScript (old new : List String) (changes : List LineChange) : Prop where
  removed : Picks old (removals changes)
  added : Picks new (additions changes)
  common : leftOver old changes = without ((additions changes).map Prod.snd) 1 new

/-! ### Picked lines and what is left without them -/

/-- The numbers of lines in a row grow. -/
theorem pairwise_zipIdx (lines : List String) (i : Nat) : (lines.zipIdx i).Pairwise (·.2 < ·.2) := by
  have h : ((lines.zipIdx i).map Prod.snd).Pairwise (· < ·) := by
    rw [List.zipIdx_map_snd]
    exact List.pairwise_lt_range'
  exact List.pairwise_map.mp h

/-- Picked lines are a part of the numbered lines, in their order. -/
theorem picks_iff_sublist {lines : List String} {picked : List (String × Nat)} :
    Picks lines picked ↔ picked.Sublist (lines.zipIdx 1) := by
  constructor
  · intro h
    have hnodup : picked.Nodup := by
      refine h.increasing.imp ?_
      rintro p q hlt rfl
      exact Nat.lt_irrefl _ hlt
    have hsubset : picked ⊆ lines.zipIdx 1 := fun p hp => List.mk_mem_zipIdx_iff_le_and_getElem?_sub.mpr (h.line p hp)
    have antisymm : Std.Antisymm fun p q : String × Nat => p.2 < q.2 := ⟨fun p q hlt hgt => absurd hgt (Nat.lt_asymm hlt)⟩
    exact List.sublist_of_subperm_of_pairwise (List.subperm_of_subset hnodup hsubset) h.increasing (pairwise_zipIdx lines 1)
  · intro h
    exact ⟨(pairwise_zipIdx lines 1).sublist h, fun p hp => List.mk_mem_zipIdx_iff_le_and_getElem?_sub.mp (h.subset hp)⟩

/-- The numbers of picked lines are not below the first. -/
theorem le_of_sublist_zipIdx {lines : List String} {picked : List (String × Nat)} {i n : Nat}
    (h : picked.Sublist (lines.zipIdx i)) (hn : n ∈ picked.map Prod.snd) : i ≤ n := by
  obtain ⟨p, hp, rfl⟩ := List.mem_map.mp hn
  exact (List.mk_mem_zipIdx_iff_le_and_getElem?_sub.mp (h.subset hp)).1

/-- Numbers below the first do not matter. -/
theorem without_cons_of_lt {numbers : List Nat} {n i : Nat} (h : n < i) (lines : List String) :
    without (n :: numbers) i lines = without numbers i lines := by
  induction lines generalizing i with
  | nil => rfl
  | cons a lines ih =>
    have hne : i ≠ n := by omega
    simp only [without, List.mem_cons, hne, false_or, ih (Nat.lt_succ_of_lt h)]

/-- What is left of lines is in their order. -/
theorem without_sublist (numbers : List Nat) (i : Nat) (lines : List String) : (without numbers i lines).Sublist lines := by
  induction lines generalizing i with
  | nil => exact List.Sublist.refl []
  | cons a lines ih =>
    rw [without]
    split
    · exact (ih (i + 1)).cons a
    · exact (ih (i + 1)).cons_cons a

/-- A picked line is left out. -/
theorem without_picked (numbers : List Nat) (i : Nat) (a : String) (lines : List String) :
    without (i :: numbers) i (a :: lines) = without numbers (i + 1) lines := by
  rw [without, if_pos (List.mem_cons_self), without_cons_of_lt (Nat.lt_succ_self i)]

/-- A line before all picked ones is left. -/
theorem without_unpicked {lines' : List String} {picked : List (String × Nat)} {i : Nat}
    (h : picked.Sublist (lines'.zipIdx (i + 1))) (a : String) (lines : List String) :
    without (picked.map Prod.snd) i (a :: lines) = a :: without (picked.map Prod.snd) (i + 1) lines :=
  if_neg fun hmem => Nat.not_succ_le_self i (le_of_sublist_zipIdx h hmem)

/-- Each picked line is one line less. -/
theorem length_without {lines : List String} {picked : List (String × Nat)} {i : Nat} (h : picked.Sublist (lines.zipIdx i)) :
    (without (picked.map Prod.snd) i lines).length + picked.length = lines.length := by
  induction lines generalizing i picked with
  | nil =>
    rw [List.eq_nil_of_sublist_nil h]
    rfl
  | cons a lines ih =>
    rw [List.zipIdx_cons] at h
    rcases List.sublist_cons_iff.mp h with hrest | ⟨rest, rfl, hrest⟩
    · rw [without_unpicked hrest, List.length_cons, List.length_cons, ← ih hrest]
      omega
    · rw [List.map_cons, without_picked, List.length_cons, List.length_cons, ← ih hrest, Nat.add_assoc]

/-- What a script leaves is also a part of the new lines. -/
theorem IsScript.leftOver_sublist {old new : List String} {changes : List LineChange} (h : IsScript old new changes) :
    (leftOver old changes).Sublist new := by
  rw [h.common]
  exact without_sublist _ 1 new

/-- A script has an entry for each line that is not common. -/
theorem IsScript.length_eq {old new : List String} {changes : List LineChange} (h : IsScript old new changes) :
    changes.length + 2 * (leftOver old changes).length = old.length + new.length := by
  have hremoved := length_without (picks_iff_sublist.mp h.removed)
  have hadded := length_without (picks_iff_sublist.mp h.added)
  have hlength : changes.length = (removals changes).length + (additions changes).length := by
    clear h hremoved hadded
    induction changes with
    | nil => rfl
    | cons change rest ih =>
      cases change <;>
        simp only [removals, additions, LineChange.removed?, LineChange.added?, List.filterMap_cons, List.length_cons] at ih ⊢ <;>
        omega
  have hcommon := congrArg List.length h.common
  rw [leftOver] at hcommon ⊢
  omega

/-! ## The table as a recursion -/

/-- The cell of two ends of the texts, by recursion: the old one from line `i` on and the new one from line `j` on. -/
def solve (i : Nat) (old : List String) (j : Nat) (new : List String) : Cell :=
  match old, new with
  | [], [] => .empty
  | [], b :: new => ⟨0, .added j b :: (solve i [] (j + 1) new).changes⟩
  | a :: old, [] =>
    let down := solve (i + 1) old j []
    ⟨down.common, .removed i a :: down.changes⟩
  | a :: old, b :: new =>
    if a = b then
      let across := solve (i + 1) old (j + 1) new
      ⟨across.common + 1, across.changes⟩
    else
      let down := solve (i + 1) old j (b :: new)
      let right := solve i (a :: old) (j + 1) new
      if right.common ≤ down.common then ⟨down.common, .removed i a :: down.changes⟩
      else ⟨right.common, .added j b :: right.changes⟩
termination_by old.length + new.length

/-- The cells of one end of the old text and all ends of the new one. -/
def cells (i : Nat) (old : List String) : Nat → List String → List Cell
  | j, [] => [solve i old j []]
  | j, b :: new => solve i old j (b :: new) :: cells i old (j + 1) new

theorem headD_cells (i : Nat) (old : List String) (j : Nat) (new : List String) (d : Cell) :
    (cells i old j new).headD d = solve i old j new := by
  cases new <;> rfl

/-- The last row of the table is that of the empty end of the old text. -/
theorem lastRow_eq_cells (i j : Nat) (new : List String) : lastRow j new = cells i [] j new := by
  induction new generalizing j with
  | nil => rw [lastRow, cells, solve]
  | cons b new ih => rw [lastRow, cells, ih, headD_cells, solve]

/-- A row is found from the one below it. -/
theorem row_cells (i : Nat) (a : String) (old : List String) (j : Nat) (new : List String) :
    row i a j new (cells (i + 1) old j new) = cells i (a :: old) j new := by
  induction new generalizing j with
  | nil => rw [row, headD_cells, cells, solve]
  | cons b new ih =>
    have htail : (cells (i + 1) old j (b :: new)).tail = cells (i + 1) old (j + 1) new := rfl
    rw [row, htail, ih, headD_cells, headD_cells, headD_cells, cells, solve]

/-- The table has the cells that the recursion has, row by row; by induction on the old lines. -/
theorem table_eq_cells (new : List String) (i : Nat) (old : List String) : table new i old = cells i old 1 new := by
  induction old generalizing i with
  | nil => rw [table, lastRow_eq_cells]
  | cons a old ih => rw [table, ih, row_cells]

/-- The changes that the table gives are those of the recursion. -/
theorem changes_eq_solve (old new : List String) : changes old new = (solve 1 old 1 new).changes := by
  rw [changes, table_eq_cells, headD_cells]

/-! ## The changes are a script -/

/-- What a cell says of two ends: its changes are a script between them, and it counts the lines that they leave. -/
structure Cell.Sound (i : Nat) (old : List String) (j : Nat) (new : List String) (cell : Cell) : Prop where
  removed : (removals cell.changes).Sublist (old.zipIdx i)
  added : (additions cell.changes).Sublist (new.zipIdx j)
  common : without ((removals cell.changes).map Prod.snd) i old = without ((additions cell.changes).map Prod.snd) j new
  length : (without ((removals cell.changes).map Prod.snd) i old).length = cell.common

namespace Cell.Sound

variable {i j n : Nat} {old new : List String} {changes : List LineChange}

/-- A common line before both ends. -/
theorem keep (h : Sound (i + 1) old (j + 1) new ⟨n, changes⟩) (a : String) : Sound i (a :: old) j (a :: new) ⟨n + 1, changes⟩ where
  removed := h.removed.cons (a, i)
  added := h.added.cons (a, j)
  common := by
    rw [without_unpicked h.removed, without_unpicked h.added, h.common]
  length := by
    rw [without_unpicked h.removed, List.length_cons, h.length]

/-- A line more in the old text, which is removed. -/
theorem remove (h : Sound (i + 1) old j new ⟨n, changes⟩) (a : String) :
    Sound i (a :: old) j new ⟨n, .removed i a :: changes⟩ where
  removed := h.removed.cons_cons (a, i)
  added := h.added
  common := (without_picked _ i a old).trans h.common
  length := (congrArg List.length (without_picked _ i a old)).trans h.length

/-- A line more in the new text, which is added. -/
theorem add (h : Sound i old (j + 1) new ⟨n, changes⟩) (b : String) : Sound i old j (b :: new) ⟨n, .added j b :: changes⟩ where
  removed := h.removed
  added := h.added.cons_cons (b, j)
  common := h.common.trans (without_picked _ j b new).symm
  length := h.length

end Cell.Sound

/-- Every cell is sound; by induction along the recursion. -/
theorem solve_sound (i : Nat) (old : List String) (j : Nat) (new : List String) : (solve i old j new).Sound i old j new := by
  fun_induction solve i old j new with
  | case1 i j => exact ⟨.refl _, .refl _, rfl, rfl⟩
  | case2 i j b new ih =>
    -- Nothing is left of an empty text.
    have hrest : Cell.Sound i [] (j + 1) new ⟨0, (solve i [] (j + 1) new).changes⟩ := ⟨ih.removed, ih.added, ih.common, rfl⟩
    exact hrest.add b
  | case3 i j a old down ih => exact ih.remove a
  | case4 i j old b new across ih => exact ih.keep b
  | case5 i j a old b new hne down right hle ih ih' => exact ih.remove a
  | case6 i j a old b new hne down right hle ih ih' => exact ih'.add b

/-- The changes are a script. -/
theorem isScript_changes (old new : List String) : IsScript old new (changes old new) := by
  have h := solve_sound 1 old 1 new
  rw [changes_eq_solve]
  exact ⟨picks_iff_sublist.mpr h.removed, picks_iff_sublist.mpr h.added, h.common⟩

/-! ## No common subsequence is longer -/

/-- A common subsequence of two texts with different first lines does without one of them. -/
theorem sublist_tail_of_ne {a b : String} (hne : a ≠ b) {old new s : List String} (hold : s.Sublist (a :: old))
    (hnew : s.Sublist (b :: new)) : s.Sublist old ∨ s.Sublist new := by
  rcases List.sublist_cons_iff.mp hold with h | ⟨rest, rfl, -⟩
  · exact .inl h
  · rcases List.sublist_cons_iff.mp hnew with h | ⟨rest', heq, -⟩
    · exact .inr h
    · exact absurd (List.cons.inj heq).1 hne

/-- No common subsequence is longer than the first cell says. -/
theorem length_le_common (i : Nat) (old : List String) (j : Nat) (new : List String) :
    ∀ s : List String, s.Sublist old → s.Sublist new → s.length ≤ (solve i old j new).common := by
  fun_induction solve i old j new with
  | case1 i j =>
    intro s hold _
    simp [List.eq_nil_of_sublist_nil hold]
  | case2 i j b new ih =>
    intro s hold _
    simp [List.eq_nil_of_sublist_nil hold]
  | case3 i j a old down ih =>
    intro s _ hnew
    simp [List.eq_nil_of_sublist_nil hnew]
  | case4 i j old b new across ih =>
    -- Whichever of the two first lines it starts with, its rest is a common subsequence of the two rests.
    intro s hold hnew
    have hrest : s.tail.length ≤ across.common := ih s.tail hold.tail hnew.tail
    rw [List.length_tail] at hrest
    show s.length ≤ across.common + 1
    omega
  | case5 i j a old b new hne down right hle ihdown ihright =>
    intro s hold hnew
    rcases sublist_tail_of_ne hne hold hnew with h | h
    · exact ihdown s h hnew
    · exact Nat.le_trans (ihright s hold h) hle
  | case6 i j a old b new hne down right hlt ihdown ihright =>
    intro s hold hnew
    rcases sublist_tail_of_ne hne hold hnew with h | h
    · exact Nat.le_trans (ihdown s h hnew) (Nat.le_of_not_le hlt)
    · exact ihright s hold h

/-- What the changes leave is as long as any common subsequence. -/
theorem length_le_leftOver {old new s : List String} (hold : s.Sublist old) (hnew : s.Sublist new) :
    s.length ≤ (leftOver old (changes old new)).length := by
  rw [leftOver, changes_eq_solve, (solve_sound 1 old 1 new).length]
  exact length_le_common 1 old 1 new s hold hnew

/-- No script has fewer entries than the changes. -/
theorem length_changes_le {old new : List String} {script : List LineChange} (h : IsScript old new script) :
    (changes old new).length ≤ script.length := by
  have hmax : (leftOver old script).length ≤ (leftOver old (changes old new)).length :=
    length_le_leftOver (without_sublist _ 1 old) h.leftOver_sublist
  have hchanges := (isScript_changes old new).length_eq
  have hscript := h.length_eq
  omega

end LineDiff

end NodeScript
