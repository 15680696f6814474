import NodeScript.Proofs.Diff.Script

/-!
# The walk along the table

The table written out as rows of numbers, filled from its last corner to its first, and the walk along it in the other direction.
Here every look at a line or at a cell is a checked one that gives nothing if there is none, and the walk is cut off after as many
steps as there are lines. Still it is the changes that come out, so no look was outside and the walk was at its end.
-/

namespace NodeScript

namespace LineDiff

/-- Rows of numbers. -/
abbrev Grid : Type := Array (Array Nat)

namespace Grid

/-- The number in row `i` and column `j`. -/
def cell? (g : Grid) (i j : Nat) : Option Nat :=
  g[i]?.bind fun row => row[j]?

/-- Writes a number into a cell that is there. -/
def set? (g : Grid) (i j n : Nat) : Option Grid := do
  let row ← g[i]?
  if j < row.size then some (g.setIfInBounds i (row.setIfInBounds j n)) else none

/-- A cell that is there can be written, and the others stay as they are. -/
theorem set?_of_cell? {g : Grid} {i j m : Nat} (h : g.cell? i j = some m) (n : Nat) :
    ∃ g', g.set? i j n = some g' ∧ ∀ i' j', g'.cell? i' j' = if i' = i ∧ j' = j then some n else g.cell? i' j' := by
  obtain ⟨row, hrow, hcell⟩ := Option.bind_eq_some_iff.mp h
  obtain ⟨hj, -⟩ := Array.getElem?_eq_some_iff.mp hcell
  obtain ⟨hi, -⟩ := Array.getElem?_eq_some_iff.mp hrow
  refine ⟨g.setIfInBounds i (row.setIfInBounds j n), by simp [set?, hrow, hj], fun i' j' => ?_⟩
  simp only [cell?, Array.getElem?_setIfInBounds, hi, if_true]
  by_cases hi' : i = i'
  · subst hi'
    by_cases hj' : j = j'
    · subst hj'
      simp [hj]
    · simp [hj', Ne.symm hj', hrow]
  · simp [hi', Ne.symm hi']

end Grid

section

variable (old new : List String)

/-- Fills a cell from those below it, to its right and across. -/
def fillCell (i j : Nat) (g : Grid) : Option Grid := do
  let a ← old[i]?
  let b ← new[j]?
  let n ← if a = b then (· + 1) <$> g.cell? (i + 1) (j + 1) else max <$> g.cell? (i + 1) j <*> g.cell? i (j + 1)
  g.set? i j n

/-- Fills the first cells of a row, the last of them first. -/
def fillRow (i : Nat) : Nat → Grid → Option Grid
  | 0, g => some g
  | j + 1, g => do fillRow i j (← fillCell old new i j g)

/-- Fills the first rows, the last of them first. -/
def fill : Nat → Grid → Option Grid
  | 0, g => some g
  | i + 1, g => do fill i (← fillRow old new i new.length g)

/-- A cell for every end of the old text and every end of the new one. -/
def zeros : Grid :=
  Array.replicate (old.length + 1) (Array.replicate (new.length + 1) 0)

/-- Whether both texts go on with the same line. -/
def sameLine (i j : Nat) : Option Bool :=
  if i < old.length ∧ j < new.length then do
    let a ← old[i]?
    let b ← new[j]?
    return a == b
  else some false

/-- Whether a line is removed next, and not one added. -/
def removesNext (g : Grid) (i j : Nat) : Option Bool :=
  if j = new.length then some true
  else if i < old.length then do
    let down ← g.cell? (i + 1) j
    let right ← g.cell? i (j + 1)
    return decide (right ≤ down)
  else some false

/-- The changes from a cell on, if the walk is at its end after so many steps. -/
def walk (g : Grid) : Nat → Nat → Nat → Option (List LineChange)
  | 0, i, j => if i < old.length ∨ j < new.length then none else some []
  | steps + 1, i, j =>
    if i < old.length ∨ j < new.length then do
      if ← sameLine old new i j then walk g steps (i + 1) (j + 1)
      else if ← removesNext old new g i j then
        let a ← old[i]?
        let rest ← walk g steps (i + 1) j
        return .removed (i + 1) a :: rest
      else
        let b ← new[j]?
        let rest ← walk g steps i (j + 1)
        return .added (j + 1) b :: rest
    else some []

/-- The changes by way of the written table. -/
def changesByTable : Option (List LineChange) := do
  let g ← fill old new old.length (zeros old new)
  walk old new g (old.length + new.length) 0 0

/-- The cell of two ends by recursion, with the ends given by where they start. -/
def solveAt (i j : Nat) : Cell :=
  solve (i + 1) (old.drop i) (j + 1) (new.drop j)

end

variable {old new : List String} {i j : Nat}

/-! ## What the cells have to be -/

/-- What is left from a line on starts with the line. -/
theorem drop_eq_cons {lines : List String} {i : Nat} {a : String} (h : lines[i]? = some a) :
    lines.drop i = a :: lines.drop (i + 1) := by
  obtain ⟨hi, rfl⟩ := List.getElem?_eq_some_iff.mp h
  exact List.drop_eq_getElem_cons hi

/-- A cell with a line of both texts, by the cells next to it. -/
theorem solveAt_of_getElem? {a b : String} (ha : old[i]? = some a) (hb : new[j]? = some b) :
    solveAt old new i j =
      if a = b then ⟨(solveAt old new (i + 1) (j + 1)).common + 1, (solveAt old new (i + 1) (j + 1)).changes⟩
      else if (solveAt old new i (j + 1)).common ≤ (solveAt old new (i + 1) j).common then
        ⟨(solveAt old new (i + 1) j).common, .removed (i + 1) a :: (solveAt old new (i + 1) j).changes⟩
      else ⟨(solveAt old new i (j + 1)).common, .added (j + 1) b :: (solveAt old new i (j + 1)).changes⟩ := by
  have hdown : solveAt old new (i + 1) j = solve (i + 1 + 1) (old.drop (i + 1)) (j + 1) (b :: new.drop (j + 1)) := by
    rw [solveAt, drop_eq_cons hb]
  have hright : solveAt old new i (j + 1) = solve (i + 1) (a :: old.drop (i + 1)) (j + 1 + 1) (new.drop (j + 1)) := by
    rw [solveAt, drop_eq_cons ha]
  rw [hdown, hright, solveAt, drop_eq_cons ha, drop_eq_cons hb, solve]
  rfl

/-- The number in a cell with a line of both texts, by the numbers next to it. -/
theorem common_solveAt {a b : String} (ha : old[i]? = some a) (hb : new[j]? = some b) :
    (solveAt old new i j).common =
      if a = b then (solveAt old new (i + 1) (j + 1)).common + 1
      else max (solveAt old new (i + 1) j).common (solveAt old new i (j + 1)).common := by
  rw [solveAt_of_getElem? ha hb]
  split
  · rfl
  · split
    · rename_i hle
      exact (Nat.max_eq_left hle).symm
    · rename_i hlt
      exact (Nat.max_eq_right (Nat.le_of_not_le hlt)).symm

/-- At the end of one of the texts nothing is common. -/
theorem common_solveAt_of_end (h : i = old.length ∨ j = new.length) : (solveAt old new i j).common = 0 := by
  have hsound := solve_sound (i + 1) (old.drop i) (j + 1) (new.drop j)
  rw [solveAt, ← hsound.length]
  rcases h with rfl | rfl
  · rw [List.drop_length]
    rfl
  · rw [hsound.common, List.drop_length]
    rfl

/-! ## Filling -/

/-- All cells are there, and from row `i` and column `j` on, as at the ends of the texts, they are what they have to be. -/
def Filled (old new : List String) (i j : Nat) (g : Grid) : Prop :=
  ∀ i' j', i' ≤ old.length → j' ≤ new.length → ∃ n, g.cell? i' j' = some n ∧
    (i < i' ∨ i' = i ∧ j ≤ j' ∨ i' = old.length ∨ j' = new.length → n = (solveAt old new i' j').common)

/-- The cells at the ends of the texts are right from the start. -/
theorem filled_zeros (old new : List String) : Filled old new old.length 0 (zeros old new) := by
  intro i' j' hi hj
  refine ⟨0, ?_, fun h => ?_⟩
  · simp [Grid.cell?, zeros, Nat.lt_succ_of_le hi, Nat.lt_succ_of_le hj]
  · exact (common_solveAt_of_end (by omega)).symm

/-- A row that is done is the start of the next one. -/
theorem Filled.nextRow {g : Grid} (h : Filled old new (i + 1) 0 g) : Filled old new i new.length g := by
  intro i' j' hi hj
  obtain ⟨n, hcell, hn⟩ := h i' j' hi hj
  exact ⟨n, hcell, fun hdone => hn (by omega)⟩

/-- A cell is filled from those that are right already, and is right then. -/
theorem Filled.fillCell {g : Grid} (h : Filled old new i (j + 1) g) (hi : i < old.length) (hj : j < new.length) :
    ∃ g', fillCell old new i j g = some g' ∧ Filled old new i j g' := by
  have ha : old[i]? = some old[i] := List.getElem?_eq_getElem hi
  have hb : new[j]? = some new[j] := List.getElem?_eq_getElem hj
  obtain ⟨across, hacross, hacross'⟩ := h (i + 1) (j + 1) hi hj
  obtain ⟨down, hdown, hdown'⟩ := h (i + 1) j hi (Nat.le_of_lt hj)
  obtain ⟨right, hright, hright'⟩ := h i (j + 1) (Nat.le_of_lt hi) hj
  obtain ⟨m, hm, -⟩ := h i j (Nat.le_of_lt hi) (Nat.le_of_lt hj)
  obtain ⟨g', hg', hcells⟩ := Grid.set?_of_cell? hm (solveAt old new i j).common
  refine ⟨g', ?_, fun i' j' hi' hj' => ?_⟩
  · rw [← hg', common_solveAt ha hb, ← hacross' (by omega), ← hdown' (by omega), ← hright' (by omega)]
    simp only [LineDiff.fillCell, ha, hb, hacross, hdown, hright]
    by_cases hab : old[i] = new[j] <;> simp [hab]
  · by_cases hhere : i' = i ∧ j' = j
    · obtain ⟨rfl, rfl⟩ := hhere
      exact ⟨_, by rw [hcells, if_pos ⟨rfl, rfl⟩], fun _ => rfl⟩
    · obtain ⟨n, hn, hn'⟩ := h i' j' hi' hj'
      refine ⟨n, by rw [hcells, if_neg hhere, hn], fun hdone => hn' ?_⟩
      omega

/-- A row is filled from its last cell to its first. -/
theorem Filled.fillRow {g : Grid} (h : Filled old new i j g) (hi : i < old.length) (hj : j ≤ new.length) :
    ∃ g', fillRow old new i j g = some g' ∧ Filled old new i 0 g' := by
  induction j generalizing g with
  | zero => exact ⟨g, rfl, h⟩
  | succ j ih =>
    obtain ⟨g', hg', h'⟩ := h.fillCell hi hj
    obtain ⟨g'', hg'', h''⟩ := ih h' (Nat.le_of_lt hj)
    exact ⟨g'', by rw [LineDiff.fillRow, hg']; exact hg'', h''⟩

/-- All rows are filled, from the last one to the first one. -/
theorem Filled.fill {g : Grid} (h : Filled old new i 0 g) (hi : i ≤ old.length) :
    ∃ g', fill old new i g = some g' ∧ Filled old new 0 0 g' := by
  induction i generalizing g with
  | zero => exact ⟨g, rfl, h⟩
  | succ i ih =>
    obtain ⟨g', hg', h'⟩ := h.nextRow.fillRow hi (Nat.le_refl _)
    obtain ⟨g'', hg'', h''⟩ := ih h' (Nat.le_of_lt hi)
    exact ⟨g'', by rw [LineDiff.fill, hg']; exact hg'', h''⟩

/-! ## Walking -/

/-- In a table that is filled, all cells are what they have to be. -/
theorem Filled.cell? {g : Grid} (h : Filled old new 0 0 g) (hi : i ≤ old.length) (hj : j ≤ new.length) :
    g.cell? i j = some (solveAt old new i j).common := by
  obtain ⟨n, hcell, hn⟩ := h i j hi hj
  rw [hcell, hn (by omega)]

/-- At the end of the new text what is left of the old one is removed. -/
theorem changes_solveAt_of_newEnd {a : String} (ha : old[i]? = some a) :
    (solveAt old new i new.length).changes = .removed (i + 1) a :: (solveAt old new (i + 1) new.length).changes := by
  simp only [solveAt]
  rw [drop_eq_cons ha, List.drop_length, solve]

/-- At the end of the old text what is left of the new one is added. -/
theorem changes_solveAt_of_oldEnd {b : String} (hb : new[j]? = some b) :
    (solveAt old new old.length j).changes = .added (j + 1) b :: (solveAt old new old.length (j + 1)).changes := by
  simp only [solveAt]
  rw [drop_eq_cons hb, List.drop_length, solve]

theorem changes_solveAt_of_ends (old new : List String) : (solveAt old new old.length new.length).changes = [] := by
  rw [solveAt, List.drop_length, List.drop_length, solve]
  rfl

/-- A walk takes at most one step for each line that is left, and comes out with the changes from there on. -/
theorem Filled.walk {g : Grid} (h : Filled old new 0 0 g) {steps : Nat} (hi : i ≤ old.length) (hj : j ≤ new.length)
    (hsteps : (old.length - i) + (new.length - j) ≤ steps) : walk old new g steps i j = some (solveAt old new i j).changes := by
  induction steps generalizing i j with
  | zero =>
    obtain rfl : i = old.length := by omega
    obtain rfl : j = new.length := by omega
    simp [LineDiff.walk, changes_solveAt_of_ends]
  | succ steps ih =>
    rcases Nat.lt_or_eq_of_le hi with hlt | rfl
    · have ha : old[i]? = some old[i] := List.getElem?_eq_getElem hlt
      rcases Nat.lt_or_eq_of_le hj with hlt' | rfl
      · have hb : new[j]? = some new[j] := List.getElem?_eq_getElem hlt'
        have hacross := ih (i := i + 1) (j := j + 1) hlt hlt' (by omega)
        have hdown := ih (i := i + 1) (j := j) hlt hj (by omega)
        have hright := ih (i := i) (j := j + 1) hi hlt' (by omega)
        have hne : j ≠ new.length := Nat.ne_of_lt hlt'
        rw [LineDiff.walk, if_pos (.inl hlt), solveAt_of_getElem? ha hb]
        by_cases hab : old[i] = new[j]
        · simp [sameLine, hlt, hlt', hab, hacross]
        · by_cases hle : (solveAt old new i (j + 1)).common ≤ (solveAt old new (i + 1) j).common
          · simp [sameLine, removesNext, hlt, hlt', hne, hab, hle, hdown, h.cell? hlt hj, h.cell? hi hlt']
          · simp [sameLine, removesNext, hlt, hlt', hne, hab, hle, hright, h.cell? hlt hj, h.cell? hi hlt']
      · have hdown := ih (i := i + 1) (j := new.length) hlt hj (by omega)
        rw [LineDiff.walk, if_pos (.inl hlt), changes_solveAt_of_newEnd ha]
        simp [sameLine, removesNext, ha, hdown]
    · rcases Nat.lt_or_eq_of_le hj with hlt' | rfl
      · have hb : new[j]? = some new[j] := List.getElem?_eq_getElem hlt'
        have hright := ih (i := old.length) (j := j + 1) hi hlt' (by omega)
        have hne : j ≠ new.length := Nat.ne_of_lt hlt'
        rw [LineDiff.walk, if_pos (.inr hlt'), changes_solveAt_of_oldEnd hb]
        simp [sameLine, removesNext, hb, hne, hright]
      · simp [LineDiff.walk, changes_solveAt_of_ends]

/-- The walk along the written table looks at nothing that is not there, comes to its end, and gives the changes. -/
theorem changesByTable_eq (old new : List String) : changesByTable old new = some (changes old new) := by
  obtain ⟨g, hg, hfilled⟩ := (filled_zeros old new).fill (Nat.le_refl _)
  have hwalk := hfilled.walk (Nat.zero_le _) (Nat.zero_le _) (Nat.le_refl _)
  rw [changesByTable, hg, changes_eq_solve]
  exact hwalk

end LineDiff

/-- The text of a difference: an entry a line, or the notice if there is none. -/
theorem lineDiff_eq (expected actual : String) :
    lineDiff expected actual =
      let changes := LineDiff.changes (Text.lines expected) (Text.lines actual)
      if changes = [] then "       (trailing newline differs)\n" else String.join (changes.map LineChange.text) := by
  unfold lineDiff
  split
  · rename_i hnil
    rw [hnil]
    rfl
  · rename_i hne
    rw [if_neg hne, String.join, List.foldl_map]

/-- A difference is a correct script, and a minimal one. The checked walk along the table ends, and its text has an entry for each
of the changes that come out. They are a script: the removed lines have growing numbers in the expected text and are the lines with
these numbers, so are the added ones in the actual text, and what is left of both is the same. What is left is a longest common
subsequence, and no script has fewer entries. -/
theorem lineDiff_minimal (expected actual : String) :
    ∃ changes, LineDiff.changesByTable (Text.lines expected) (Text.lines actual) = some changes ∧
      (lineDiff expected actual =
        if changes = [] then "       (trailing newline differs)\n" else String.join (changes.map LineChange.text)) ∧
      LineDiff.IsScript (Text.lines expected) (Text.lines actual) changes ∧
      ((LineDiff.leftOver (Text.lines expected) changes).Sublist (Text.lines expected) ∧
        (LineDiff.leftOver (Text.lines expected) changes).Sublist (Text.lines actual) ∧
        ∀ s : List String, s.Sublist (Text.lines expected) → s.Sublist (Text.lines actual) →
          s.length ≤ (LineDiff.leftOver (Text.lines expected) changes).length) ∧
      ∀ script, LineDiff.IsScript (Text.lines expected) (Text.lines actual) script → changes.length ≤ script.length := by
  have hscript := LineDiff.isScript_changes (Text.lines expected) (Text.lines actual)
  refine ⟨_, LineDiff.changesByTable_eq _ _, lineDiff_eq expected actual, hscript, ⟨?_, ?_, ?_⟩, ?_⟩
  · exact LineDiff.without_sublist _ 1 _
  · exact hscript.leftOver_sublist
  · intro s hold hnew
    exact LineDiff.length_le_leftOver hold hnew
  · intro script h
    exact LineDiff.length_changes_le h

/-- With repeated lines there are two shortest scripts, and the changes are one of them. -/
theorem lineDiff_minimal_repeated :
    LineDiff.changesByTable ["a", "b", "a"] ["b", "a", "b"] = some [.removed 1 "a", .added 3 "b"] ∧
    LineDiff.IsScript ["a", "b", "a"] ["b", "a", "b"] [.added 1 "b", .removed 3 "a"] ∧
    ["a", "b"].length ≤ (LineDiff.leftOver ["a", "b", "a"] [.removed 1 "a", .added 3 "b"]).length ∧
    [LineChange.removed 1 "a", .added 3 "b"].length ≤ [LineChange.added 1 "b", .removed 3 "a"].length := by
  have hold : Text.lines "a\nb\na\n" = ["a", "b", "a"] := by decide
  have hnew : Text.lines "b\na\nb\n" = ["b", "a", "b"] := by decide
  have htable : LineDiff.changesByTable ["a", "b", "a"] ["b", "a", "b"] = some [.removed 1 "a", .added 3 "b"] := by decide
  have hscript : LineDiff.IsScript ["a", "b", "a"] ["b", "a", "b"] [.added 1 "b", .removed 3 "a"] :=
    ⟨⟨by decide, by decide⟩, ⟨by decide, by decide⟩, by decide⟩
  obtain ⟨changes, hchanges, -, -, ⟨-, -, hmax⟩, hfewest⟩ := lineDiff_minimal "a\nb\na\n" "b\na\nb\n"
  rw [hold, hnew] at hchanges hmax hfewest
  obtain rfl : [.removed 1 "a", .added 3 "b"] = changes := Option.some.inj (htable.symm.trans hchanges)
  exact ⟨htable, hscript, hmax ["a", "b"] (by decide) (by decide), hfewest _ hscript⟩

end NodeScript
