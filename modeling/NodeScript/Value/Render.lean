import NodeScript.Value.Number

/-!
# The text of a value

A scalar has a text of its own. A list is shown as its elements between brackets, and a list that is met again inside itself
as `[...]`. A range is shown as the list of its integers.
-/

namespace NodeScript

namespace Value

/-- The integer that a value stands for as the bound of a range. -/
def bound? : Value → Option Int64
  | int n => some n
  | bool b => some (boolInt b)
  | _ => none

/-- The bounds of a range, which have to be integers. -/
def bounds (start stop : Value) : Except Fault (Int64 × Int64) :=
  match start.bound?, stop.bound? with
  | some a, some b => .ok (a, b)
  | _, _ => .error (.mismatch (.rangeBounds start.type stop.type))

/-- The text of a truth value. -/
def boolText (b : Bool) : String :=
  if b then "True" else "False"

/-- The text of a scalar. -/
def scalarText : Value → Except Fault String
  | int n => .ok (toString n)
  | float x => .ok (floatLayout.floatText x)
  | bool b => .ok (boolText b)
  | string s => .ok s
  | v => .error (.mismatch (.noScalar v.type))

end Value

/-- The integers from `start` up to but not including `stop`. -/
def intsFrom (start stop : Int64) : List Int64 :=
  (List.range (stop.toInt - start.toInt).toNat).map fun (k : Nat) => Int64.ofInt (start.toInt + k)

/-- Texts between brackets, with a comma between them. -/
def bracketed (texts : List String) : String :=
  "[" ++ String.intercalate "," texts ++ "]"

namespace Heap

/-- The text of a value, where `nested` gives the text of a list. -/
def renderWith (nested : ListId → Except Fault String) : Value → Except Fault String
  | .list l => nested l
  | .range start stop => do
    let (a, b) ← Value.bounds start stop
    return bracketed ((intsFrom a b).map toString)
  | .func f => .ok ("func(" ++ String.intercalate "," f.params ++ ")")
  | .void => .ok "void"
  | v => v.scalarText

/-- The text of a list, inside the lists that are open; `fuel` bounds how deep lists are nested. -/
def renderList (h : Heap) : Nat → List ListId → ListId → Except Fault String
  | 0, _, _ => .ok "[...]"
  | fuel + 1, opened, l =>
    if opened.contains l then .ok "[...]"
    else do
      let texts ← (h.values l).mapM (renderWith (renderList h fuel (l :: opened)))
      return bracketed texts

/-- The text of a value. A list that is open is not opened again, so there are never more open lists than lists. -/
def render (h : Heap) (v : Value) : Except Fault String :=
  renderWith (renderList h (h.lists.size + 1) []) v

/-- The text of a value in a message; the name of its type when it has none. -/
def describe (h : Heap) (v : Value) : String :=
  match h.render v with
  | .ok text => text
  | .error _ => "<" ++ v.type.name ++ ">"

end Heap

end NodeScript
