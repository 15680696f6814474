import NodeScript.Json.Basic
import NodeScript.Tree.Span

/-!
# Load errors

What can be wrong with a document, where it is wrong, and the log of what was found. The log keeps only so many errors but
counts them all.
-/

namespace NodeScript

/-- The number of an error. -/
structure ErrorCode where
  number : UInt16
  deriving DecidableEq, Repr

namespace ErrorCode

/-- An instruction whose tag is not known. -/
def unknownInstruction : ErrorCode := ⟨100⟩

/-- An expression whose tag is not known. -/
def unknownExpression : ErrorCode := ⟨101⟩

/-- A field that is not there. -/
def missingField : ErrorCode := ⟨102⟩

/-- A field that is not what it should be. -/
def malformedField : ErrorCode := ⟨103⟩

/-- A text that is no program at all. -/
def malformedDocument : ErrorCode := ⟨104⟩

/-- The name of a code. -/
def name (c : ErrorCode) : String :=
  if c = unknownInstruction then "UnknownInstructionType"
  else if c = unknownExpression then "UnknownExpressionType"
  else if c = missingField then "MissingField"
  else if c = malformedField then "MalformedField"
  else if c = malformedDocument then "MalformedDocument"
  else "Unknown"

/-- The text of a code. -/
def text (c : ErrorCode) : String :=
  "E" ++ toString c.number

end ErrorCode

/-- What is wrong with a document. -/
inductive LoadCause where
  | invalidJson
  | notProgram (got : Json)
  | notBlock (got : Json)
  | notNode (got : Json)
  | tagNotString (got : Json)
  | tagMissing
  | unknownInstruction (tag : String)
  | unknownExpression (tag : String)
  | fieldMissing (tag field : String)
  | fieldNotString (field : String) (got : Json)
  | fieldNotArray (field : String) (got : Json)
  | fieldNotObject (field : String) (got : Json)
  | caseNotObject (got : Json)
  | notExpression (got : Json)
  | integerTooLarge (n : Int)
  | parameterNotString
  | lineNotNumber
  | columnNotNumber
  | nestedTooDeep

namespace LoadCause

/-- The code of a cause. -/
def code : LoadCause → ErrorCode
  | invalidJson | notProgram _ => .malformedDocument
  | unknownInstruction _ => .unknownInstruction
  | unknownExpression _ => .unknownExpression
  | tagMissing | fieldMissing _ _ => .missingField
  | _ => .malformedField

/-- The message of a cause. -/
def message : LoadCause → String
  | invalidJson => "invalid JSON"
  | notProgram got => "a program must be an array of instructions, got " ++ got.kindText
  | notBlock got => "expected an array of instructions, got " ++ got.kindText
  | notNode got => "expected a node object, got " ++ got.kindText
  | tagNotString got => "node 'type' must be a string, got " ++ got.kindText
  | tagMissing => "node is missing its 'type' tag"
  | unknownInstruction tag => "unknown instruction type '" ++ tag ++ "'"
  | unknownExpression tag => "unknown expression type '" ++ tag ++ "'"
  | fieldMissing tag field => "'" ++ tag ++ "' node is missing field '" ++ field ++ "'"
  | fieldNotString field got => "field '" ++ field ++ "' must be a string, got " ++ got.kindText
  | fieldNotArray field got => "field '" ++ field ++ "' must be an array, got " ++ got.kindText
  | fieldNotObject field got => "field '" ++ field ++ "' must be an object, got " ++ got.kindText
  | caseNotObject got => "switch case must be an object, got " ++ got.kindText
  | notExpression got => "expected an expression, got " ++ got.kindText
  | integerTooLarge n => "integer literal " ++ toString n ++ " does not fit in 64 bits"
  | parameterNotString => "function parameters must be strings"
  | lineNotNumber => "field 'line' must be a positive integer"
  | columnNotNumber => "field 'column' must be a positive integer"
  | nestedTooDeep => "the document is nested too deeply"

end LoadCause

/-- One step from a document to a part of it. -/
inductive Segment where
  | index (i : Nat)
  | key (name : String)
  deriving DecidableEq, Repr

/-- The way from a document to a part of it, the first step first. -/
abbrev Path := List Segment

/-- The text of one step. -/
def Segment.text : Segment → String
  | index i => "[" ++ toString i ++ "]"
  | key name => "." ++ name

/-- The text of a path; `$` is the whole document. -/
def Path.text (path : Path) : String :=
  path.foldl (fun text segment => text ++ segment.text) "$"

/-- An error in a document: what it is, and where. -/
structure LoadError where
  code : ErrorCode
  message : String
  path : String
  span : Option Span
  deriving DecidableEq, Repr

namespace LoadError

/-- Where an error is: its position when it has one, else its path. -/
def location (e : LoadError) : String :=
  match e.span with
  | some s => s.text
  | none => e.path

/-- An error on one line. -/
def text (e : LoadError) : String :=
  e.location ++ ": " ++ e.code.text ++ " [" ++ e.code.name ++ "] " ++ e.message

end LoadError

/-- The errors of a document. Only the first `capacity` of them are kept, all of them if there is none. -/
structure ErrorLog where
  capacity : Option Nat
  errors : List LoadError
  total : Nat
  deriving DecidableEq, Repr

namespace ErrorLog

/-- How many errors are kept. -/
def limit : Nat := 20

/-- No errors yet. -/
def empty (capacity : Option Nat) : ErrorLog :=
  ⟨capacity, [], 0⟩

/-- Whether no further error is kept. -/
def isFull (log : ErrorLog) : Bool :=
  log.capacity.any fun capacity => capacity ≤ log.errors.length

/-- Whether there was an error. -/
def hasErrors (log : ErrorLog) : Bool :=
  0 < log.total

/-- Counts an error, and keeps it if there is room. -/
def push (log : ErrorLog) (e : LoadError) : ErrorLog :=
  { log with errors := if log.isFull then log.errors else log.errors ++ [e], total := log.total + 1 }

/-- The kept errors, a line each, and the number of those that were not kept. -/
def text (log : ErrorLog) : String :=
  let lines := log.errors.foldl (fun text e => text ++ e.text ++ "\n") ""
  if log.errors.length < log.total then
    lines ++ "... and " ++ toString (log.total - log.errors.length) ++ " more\n"
  else lines

end ErrorLog

end NodeScript
