import NodeScript.Value.Basic

/-!
# Environments

The names that are bound, each to a slot.
-/

namespace NodeScript

/-- Which slot each bound name stands for. A name is bound once. -/
structure Env where
  bindings : List (String × SlotId)

namespace Env

/-- No name is bound. -/
def empty : Env := ⟨[]⟩

/-- The slot of a name. -/
def get? (env : Env) (name : String) : Option SlotId :=
  env.bindings.lookup name

/-- Whether a name is bound. -/
def contains (env : Env) (name : String) : Bool :=
  (env.get? name).isSome

/-- How many names are bound. -/
def size (env : Env) : Nat :=
  env.bindings.length

/-- Binds a name in a list of bindings: in its place when it is there, else at the end. -/
def bindIn (name : String) (s : SlotId) : List (String × SlotId) → List (String × SlotId)
  | [] => [(name, s)]
  | (n, t) :: rest => if n == name then (n, s) :: rest else (n, t) :: bindIn name s rest

/-- Binds a name to a slot. -/
def bind (env : Env) (name : String) (s : SlotId) : Env :=
  ⟨bindIn name s env.bindings⟩

/-- Binds names to slots, one after the other. -/
def bindAll (env : Env) (bindings : List (String × SlotId)) : Env :=
  bindings.foldl (fun env (name, s) => env.bind name s) env

end Env

end NodeScript
