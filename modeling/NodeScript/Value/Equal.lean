import NodeScript.Value.Number

/-!
# Equality of values

Two lists are equal when they are the same list, or have as many elements and equal ones in each place; ranges are equal when
their bounds are. Numbers and truth values are compared as numbers. Two lists that are met again while they are being
compared are not equal by that, so that comparing lists that contain themselves comes to an end.
-/

namespace NodeScript

namespace Value

/-- The number that a value stands for in a comparison of different types. -/
def numeric? : Value → Option Float
  | int n => some (nearestFloat n)
  | float x => some x
  | bool b => some (boolFloat b)
  | _ => none

/-- Equality of values that are neither both lists nor both ranges. -/
def scalarEqual : Value → Value → Bool
  | int a, int b => a == b
  | string a, string b => a == b
  | func f, func g => f.id == g.id
  | void, void => true
  | a, b => match a.numeric?, b.numeric? with
    | some x, some y => x == y
    | _, _ => false

/-- The pairs of lists that are being compared, the innermost first. -/
abbrev OpenPairs := List (ListId × ListId)

/-- A comparison: it looks at the pairs that are open, and opens and closes pairs. When its fuel is used up it has no
answer. -/
abbrev Comparison := StateT OpenPairs Option Bool

namespace Comparison

/-- Whether a pair is open. -/
def isOpen (pair : ListId × ListId) : Comparison := do
  let opened ← get
  return opened.contains pair

/-- Opens a pair, compares, and closes the pair that was opened last. -/
def opening (pair : ListId × ListId) (x : Comparison) : Comparison := do
  modify (pair :: ·)
  let same ← x
  modify List.tail
  return same

end Comparison

/-- Equality of values, where `lists` compares lists. The ends of two ranges are compared only if their starts are equal. -/
def equalWith (lists : ListId → ListId → Comparison) : Value → Value → Comparison
  | list a, list b => lists a b
  | range a b, range c d => do
    if ← equalWith lists a c then equalWith lists b d else return false
  | a, b => return scalarEqual a b

end Value

namespace Heap

/-- Whether two sequences of values are equal place by place; the first two that differ end it. -/
def allEqual (same : Value → Value → Value.Comparison) : List Value → List Value → Value.Comparison
  | v :: vs, w :: ws => do
    if ← same v w then allEqual same vs ws else return false
  | _, _ => return true

/-- Equality of lists; `fuel` bounds how deep lists are nested. A pair is open while its elements are compared. -/
def equalLists (h : Heap) : Nat → ListId → ListId → Value.Comparison
  | 0, _, _ => failure
  | fuel + 1, a, b => do
    if a == b then return true
    else if ← Value.Comparison.isOpen (a, b) then return false
    else if (h.items a).size != (h.items b).size then return false
    else
      Value.Comparison.opening (a, b)
        (allEqual (Value.equalWith (equalLists h fuel)) (h.values a) (h.values b))

/-- Fuel that is enough: a pair of lists that is open is not opened again, so there are never more open pairs than pairs. -/
def pairFuel (h : Heap) : Nat :=
  h.lists.size * h.lists.size + 1

/-- Equality of values. -/
def equal (h : Heap) (v w : Value) : Bool :=
  match Value.equalWith (equalLists h h.pairFuel) v w [] with
  | some (same, _) => same
  | none => false

end Heap

end NodeScript
