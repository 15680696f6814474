import NodeScript.Run.Env
import NodeScript.Run.Stream
import NodeScript.Value.Operation

/-!
# The machine

The state of a run, and the steps from state to state. A step ends with a result, with a failure, or without either when its
fuel is used up; the state it reached is there in every case.
-/

namespace NodeScript

/-- The state of a run. -/
structure Machine where
  env : Env
  heap : Heap
  source : Source
  sink : Sink
  /-- How many calls are open. -/
  depth : Nat

/-- Why a step has no result. -/
inductive Halt where
  | failed (e : Failure)
  | outOfFuel

/-- A step that changes the state. -/
abbrev Exec := EStateM Halt Machine

namespace Exec

variable {α : Type}

/-- Fails with a fault that has no position yet. -/
def fault (f : Fault) : Exec α :=
  throw (.failed ⟨f, none⟩)

/-- The result of a calculation, or its fault. -/
def lift : Except Fault α → Exec α
  | .ok a => pure a
  | .error f => fault f

/-- Gives a failure the position of a node, if it has none yet. -/
def located (span : Option Span) (x : Exec α) : Exec α := fun m =>
  match x m with
  | .error (.failed e) m => .error (.failed (e.located span)) m
  | r => r

/-- A calculation that looks at the heap. -/
def look (f : Heap → Except Fault α) : Exec α := fun m =>
  lift (f m.heap) m

/-- A change of the heap. -/
def change (f : Heap → α × Heap) : Exec α := fun ⟨env, heap, source, sink, depth⟩ =>
  let (a, heap) := f heap
  .ok a ⟨env, heap, source, sink, depth⟩

/-- A change of the heap that may fail, and then leaves it as it was. -/
def update (f : Heap → Except Fault Heap) : Exec Unit := fun m =>
  match f m.heap with
  | .ok heap => .ok () { m with heap }
  | .error e => fault e m

/-- A new slot with a value. -/
def alloc (v : Value) : Exec SlotId :=
  change fun h => h.alloc v

/-- The value of a slot. -/
def read (s : SlotId) : Exec Value := fun m =>
  .ok (m.heap.get s) m

/-- Binds a name to a slot. -/
def bind (name : String) (s : SlotId) : Exec Unit := fun ⟨env, heap, source, sink, depth⟩ =>
  .ok () ⟨env.bind name s, heap, source, sink, depth⟩

/-- The slot of a name. -/
def slotOf (name : String) : Exec SlotId := fun m =>
  match m.env.get? name with
  | some s => .ok s m
  | none => fault (.variableNotFound name) m

/-- Writes a text. -/
def write (text : String) : Exec Unit := fun ⟨env, heap, source, sink, depth⟩ =>
  match sink.write text with
  | (none, sink) => .ok () ⟨env, heap, source, sink, depth⟩
  | (some message, sink) => fault (.stream message) ⟨env, heap, source, sink, depth⟩

/-- Flushes the output. -/
def flush : Exec Unit := fun m =>
  match m.sink.flushFault with
  | none => .ok () m
  | some message => fault (.stream message) m

/-- Reads a line. A line that is not text is gone too. -/
def readLine : Exec String := fun m =>
  match m.source.line? with
  | some text => .ok text { m with source := m.source.advance }
  | none => fault (.stream Source.notText) { m with source := m.source.advance }

end Exec

end NodeScript
