import NodeScript.Text.Lines

/-!
# Line differences

How one text comes out of another by taking lines away and adding lines, with as few of both as can be. The table behind it
has a cell for every end of the one text and every end of the other: how many lines the two have in common, and the changes
between them.
-/

namespace NodeScript

/-- A line that only one of two texts has, with its number there. -/
inductive LineChange where
  | removed (number : Nat) (line : String)
  | added (number : Nat) (line : String)
  deriving DecidableEq, Repr

namespace LineDiff

/-- What is known of two ends of texts: how many lines they share, and the changes from the one to the other. -/
structure Cell where
  common : Nat
  changes : List LineChange
  deriving DecidableEq, Repr

/-- Two empty ends. -/
def Cell.empty : Cell := ⟨0, []⟩

/-- The cells of an empty end of the old text and the ends of the new one, from line `j` on. -/
def lastRow : Nat → List String → List Cell
  | _, [] => [.empty]
  | j, b :: new =>
    let rest := lastRow (j + 1) new
    ⟨0, .added j b :: (rest.headD .empty).changes⟩ :: rest

/-- The cells of an end of the old text that starts with line `i`, given those of the end after it in `below`. A common line is
kept; else the line is removed if that leaves as many lines in common as adding one does. -/
def row (i : Nat) (a : String) : Nat → List String → List Cell → List Cell
  | _, [], below =>
    let down := below.headD .empty
    [⟨down.common, .removed i a :: down.changes⟩]
  | j, b :: new, below =>
    let rest := row i a (j + 1) new below.tail
    let down := below.headD .empty
    let right := rest.headD .empty
    let cell :=
      if a = b then
        let across := below.tail.headD .empty
        ⟨across.common + 1, across.changes⟩
      else if right.common ≤ down.common then ⟨down.common, .removed i a :: down.changes⟩
      else ⟨right.common, .added j b :: right.changes⟩
    cell :: rest

/-- The cells of an end of the old text, from line `i` on, and all ends of the new one. -/
def table (new : List String) : Nat → List String → List Cell
  | _, [] => lastRow 1 new
  | i, a :: old => row i a 1 new (table new (i + 1) old)

/-- The changes from an old text to a new one, as lines. -/
def changes (old new : List String) : List LineChange :=
  ((table new 1 old).headD .empty).changes

end LineDiff

/-- A number, filled up to four places. -/
def placed (n : Nat) : String :=
  let digits := Nat.toDigits 10 n
  String.ofList (List.replicate (4 - digits.length) ' ' ++ digits)

/-- The text of a change. -/
def LineChange.text : LineChange → String
  | removed n line => placed n ++ " - " ++ line ++ "\n"
  | added n line => placed n ++ " + " ++ line ++ "\n"

/-- The changes from an expected text to the actual one, a line each. Texts that differ without a change of lines are said to
differ in their end. -/
def lineDiff (expected actual : String) : String :=
  match LineDiff.changes (Text.lines expected) (Text.lines actual) with
  | [] => "       (trailing newline differs)\n"
  | changes => changes.foldl (fun text change => text ++ change.text) ""

end NodeScript
