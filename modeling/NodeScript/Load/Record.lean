import NodeScript.Json.Reader
import NodeScript.Json.Record
import NodeScript.Load.Error

/-!
# Positions and load errors as JSON

How positions, load errors and logs are written as JSON and read back.
-/

namespace NodeScript

namespace Span

/-- A position as a document. -/
def toJson (s : Span) : Json :=
  .object [("line", .int s.line.toNat), ("column", .int s.column.toNat)]

/-- The position that is written; without a column it is at the first one. -/
def ofWritten? (w : Written) : Option Span := do
  match (← w.fields? ["line", "column"]).values with
  | [line, column] =>
    let line ← (← line).natural? UInt32.size
    let column ← match column with
      | some c => c.natural? UInt32.size
      | none => some 1
    return ⟨line.toUInt32, column.toUInt32⟩
  | _ => none

end Span

namespace LoadError

/-- An error as a document. -/
def toJson (e : LoadError) : Json :=
  let span := match e.span with
    | some s => [("span", s.toJson)]
    | none => []
  .object ([("code", .int e.code.number.toNat), ("message", .string e.message), ("path", .string e.path)] ++ span)

/-- The position of an error: `null`, or missing from an object, when it has none. -/
def spanOfWritten? (positional : Bool) : Option Written → Option (Option Span)
  | none => if positional then none else some none
  | some .null => some none
  | some w => (Span.ofWritten? w).map some

/-- The error that is written. -/
def ofWritten? (w : Written) : Option LoadError := do
  let fields ← w.fields? ["code", "message", "path", "span"]
  match fields.values with
  | [code, message, path, span] =>
    let code ← (← code).natural? UInt16.size
    let message ← (← message).text?
    let path ← (← path).text?
    let span ← spanOfWritten? fields.positional span
    return ⟨⟨code.toUInt16⟩, message, path, span⟩
  | _ => none

end LoadError

namespace ErrorLog

/-- A log as a document. -/
def toJson (log : ErrorLog) : Json :=
  .object [("errors", .array (log.errors.map LoadError.toJson)), ("total_errors", .int log.total)]

/-- The log that is written. -/
def ofWritten? (w : Written) : Option ErrorLog := do
  match (← w.fields? ["errors", "total_errors"]).values with
  | [some (.array errors), some total] =>
    let errors ← errors.mapM LoadError.ofWritten?
    let total ← total.natural? UInt64.size
    return ⟨some limit, errors, total⟩
  | _ => none

end ErrorLog

end NodeScript
