import NodeScript.Json.Record

/-!
# Limits of a run
-/

namespace NodeScript

/-- The limits of a run. -/
structure Config where
  /-- How many calls may be open at once. -/
  callLimit : Nat
  deriving DecidableEq, Repr

namespace Config

/-- The limits when nothing else is said. -/
def standard : Config := ⟨1000⟩

/-- The limits as a document. -/
def toJson (c : Config) : Json :=
  .object [("max_call_depth", .int c.callLimit)]

/-- The limits that are written; what is missing is as usual. -/
def ofWritten? (w : Written) : Option Config := do
  match (← w.fields? ["max_call_depth"]).values with
  | [some depth] => (depth.natural? UInt64.size).map Config.mk
  | _ => some standard

end Config

end NodeScript
