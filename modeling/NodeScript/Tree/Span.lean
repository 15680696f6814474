/-!
# Positions

Where a node stands in the text that a front end made the document from.
-/

namespace NodeScript

/-- A line and a column. -/
structure Span where
  line : UInt32
  column : UInt32
  deriving DecidableEq, Repr

/-- The text of a position, as messages show it. -/
def Span.text (s : Span) : String :=
  toString s.line ++ ":" ++ toString s.column

end NodeScript
