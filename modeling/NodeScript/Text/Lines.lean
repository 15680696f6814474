/-!
# Lines

A line ends after a line feed or at the end of the text; its text is without the line feed and without one carriage
return before it.
-/

namespace NodeScript.Text

/-- The characters of a line without a carriage return at their end. -/
def dropReturn (cs : List Char) : List Char :=
  if cs.getLast? = some '\r' then cs.dropLast else cs

/-- The lines of the characters still to come, where `line` holds those of the open line in reverse. -/
def linesFrom (line : List Char) : List Char → List String
  | [] => if line.isEmpty then [] else [String.ofList line.reverse]
  | c :: rest =>
    if c = '\n' then String.ofList (dropReturn line.reverse) :: linesFrom [] rest
    else linesFrom (c :: line) rest

/-- The lines of a text, without their ends. A last line without a line feed keeps a carriage return at its end. -/
def lines (s : String) : List String :=
  linesFrom [] s.toList

end NodeScript.Text
