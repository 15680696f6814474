import NodeScript.Value.Render

/-!
# Lists, ranges and strings as sequences

Positions, lengths, elements, and going through a sequence. A negative index counts from the end. A loop over a list looks at
the list as it is at each step.
-/

namespace NodeScript

/-! ## Positions -/

/-- The place that an index names in a sequence of a length: a negative index counts from the end. -/
def place? (index : Int64) (length : Nat) : Option Nat :=
  let i := if index.toInt < 0 then index.toInt + length else index.toInt
  if 0 ≤ i ∧ i < length then some i.toNat else none

/-- The place before which an index inserts into a sequence of a length; the end of the sequence is one too. -/
def gap? (index : Int64) (length : Nat) : Option Nat :=
  let i := if index.toInt < 0 then index.toInt + length else index.toInt
  if 0 ≤ i ∧ i ≤ length then some i.toNat else none

namespace Heap

/-- The slot of a list at an index. -/
def slotAt (h : Heap) (l : ListId) (index : Int64) : Except Fault SlotId :=
  let items := h.items l
  match (place? index items.size).bind fun i => items[i]? with
  | some s => .ok s
  | none => .error (.indexOutOfRange index items.size)

/-- The value of a list at an index. -/
def elementAt (h : Heap) (l : ListId) (index : Int64) : Except Fault Value :=
  (h.slotAt l index).map h.get

/-- Puts a slot at the end of a list. -/
def append (h : Heap) (l : ListId) (s : SlotId) : Heap :=
  h.modifyList l fun items => items.push s

/-- Puts a slot into a list before an index. -/
def insert (h : Heap) (l : ListId) (index : Int64) (s : SlotId) : Except Fault Heap :=
  let length := (h.items l).size
  match gap? index length with
  | some i => .ok (h.modifyList l fun items => items.insertIdxIfInBounds i s)
  | none => .error (.indexOutOfRange index length)

/-- Takes the element at an index out of a list; its value is the first part of the result. -/
def remove (h : Heap) (l : ListId) (index : Int64) : Except Fault (Value × Heap) :=
  let items := h.items l
  match (place? index items.size).bind fun i => items[i]?.map fun s => (i, s) with
  | some (i, s) => .ok (h.get s, h.modifyList l fun items => items.eraseIdxIfInBounds i)
  | none => .error (.indexOutOfRange index items.size)

end Heap

namespace Value

/-- An index has to be an integer. -/
def index : Value → Except Fault Int64
  | int n => .ok n
  | v => .error (.mismatch (.index v.type))

/-- The list that an operator works on. -/
def listFor (op : Operator) : Value → Except Fault ListId
  | list l => .ok l
  | v => .error (.mismatch (.needsList op v.type))

/-- The number of elements of a list or of characters of a string. -/
def length (h : Heap) : Value → Except Fault Value
  | list l => .ok (.int (Int64.ofNat (h.items l).size))
  | string s => .ok (.int (Int64.ofNat s.toList.length))
  | v => .error (.mismatch (.noLength v.type))

/-- The character of a string at an index, as a string. -/
def charAt (s : String) (index : Int64) : Except Fault Value :=
  let chars := s.toList
  match (place? index chars.length).bind fun i => chars[i]? with
  | some c => .ok (.string (String.singleton c))
  | none => .error (.indexOutOfRange index chars.length)

end Value

/-! ## Going through a sequence -/

/-- Where a pass through a sequence stands: at a place of a list, or at the next of the integers up to a bound. -/
inductive Cursor where
  | list (l : ListId) (next : Nat)
  | ints (next stop : Int64)

namespace Value

/-- A pass through a sequence, before its first item. -/
def cursor : Value → Except Fault Cursor
  | list l => .ok (.list l 0)
  | range start stop => do
    let (a, b) ← bounds start stop
    return .ints a b
  | v => .error (.mismatch (.notIterable v.type))

end Value

namespace Cursor

/-- The next item of a pass and the pass after it. An element of a list is its own slot, an integer has a new one. -/
def next? : Cursor → Heap → Option (SlotId × Cursor) × Heap
  | .list l i, h => ((h.items l)[i]?.map fun s => (s, .list l (i + 1)), h)
  | .ints n stop, h =>
    if n < stop then
      let (s, h) := h.alloc (.int n)
      (some (s, .ints (n + 1) stop), h)
    else (none, h)

end Cursor

namespace Heap

/-- The values that a sequence holds. -/
def elements (h : Heap) : Value → Except Fault (List Value)
  | .list l => .ok (h.values l)
  | .range start stop => do
    let (a, b) ← Value.bounds start stop
    return (intsFrom a b).map .int
  | v => .error (.mismatch (.notIterable v.type))

/-- The texts of the elements of a sequence with a separator between them. -/
def join (h : Heap) (sequence separator : Value) : Except Fault Value :=
  match separator with
  | .string text => do
    let elements ← h.elements sequence
    let texts ← elements.mapM Value.scalarText
    return .string (String.intercalate text texts)
  | v => .error (.mismatch (.separator v.type))

end Heap

end NodeScript
