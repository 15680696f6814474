import NodeScript.Tree.Numbering

/-!
# Values and the heap

A value is a scalar, a function, nothing at all, a range between two values, or a list. Lists are shared: a list value names
its storage in the heap, which is a sequence of slots, and a slot is a cell with one value. Variables are bound to slots too,
so whoever shares a slot or a list sees what another does to it.
-/

namespace NodeScript

/-- The number of a slot in the heap. -/
abbrev SlotId := Nat

/-- The number of a list in the heap. -/
abbrev ListId := Nat

/-- A function: what tells it apart from others, its parameters and its body. -/
structure Func where
  id : FuncId
  params : List String
  code : Block FuncId

/-- A value. -/
inductive Value where
  | int (n : Int64)
  | float (x : Float)
  | bool (b : Bool)
  | string (s : String)
  | list (id : ListId)
  | range (start stop : Value)
  | func (f : Func)
  | void

instance : Inhabited Value := ⟨.void⟩

/-- The types of values. -/
inductive ValueType where
  | int | float | bool | string | list | range | func | void
  deriving DecidableEq, Repr

/-- The name of a type. -/
def ValueType.name : ValueType → String
  | int => "int"
  | float => "float"
  | bool => "bool"
  | string => "string"
  | list => "list"
  | range => "range"
  | func => "func"
  | void => "void"

/-- The type of a value. -/
def Value.type : Value → ValueType
  | int _ => .int
  | float _ => .float
  | bool _ => .bool
  | string _ => .string
  | list _ => .list
  | range _ _ => .range
  | func _ => .func
  | void => .void

/-- The value of a literal. -/
def Literal.value : Literal → Value
  | int n => .int n
  | float x => .float x
  | bool b => .bool b
  | string s => .string s

/-- All slots and all lists there ever were. Neither is ever taken away. -/
structure Heap where
  slots : Array Value
  lists : Array (Array SlotId)

namespace Heap

/-- A heap with nothing in it. -/
def empty : Heap := ⟨#[], #[]⟩

/-- The value of a slot. -/
def get (h : Heap) (s : SlotId) : Value :=
  h.slots.getD s .void

/-- The slots of a list. -/
def items (h : Heap) (l : ListId) : Array SlotId :=
  h.lists.getD l #[]

/-- The values of a list. -/
def values (h : Heap) (l : ListId) : List Value :=
  (h.items l).toList.map h.get

/-- A new slot with a value. -/
def alloc : Heap → Value → SlotId × Heap
  | ⟨slots, lists⟩, v => (slots.size, ⟨slots.push v, lists⟩)

/-- A new list of slots. -/
def newList : Heap → Array SlotId → ListId × Heap
  | ⟨slots, lists⟩, items => (lists.size, ⟨slots, lists.push items⟩)

/-- Writes a value into a slot. -/
def set : Heap → SlotId → Value → Heap
  | ⟨slots, lists⟩, s, v => ⟨slots.setIfInBounds s v, lists⟩

/-- Changes the slots of a list. -/
def modifyList : Heap → ListId → (Array SlotId → Array SlotId) → Heap
  | ⟨slots, lists⟩, l, f => ⟨slots, lists.modify l f⟩

end Heap

end NodeScript
