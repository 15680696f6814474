/-!
# JSON documents

A document as a value: numbers are integers or binary64 numbers, and the members of an object stand in the order of the
text.
-/

namespace NodeScript

/-- A JSON document. -/
inductive Json where
  | null
  | bool (b : Bool)
  | int (n : Int)
  | float (x : Float)
  | string (s : String)
  | array (items : List Json)
  | object (members : List (String × Json))
  deriving Inhabited

namespace Json

/-- How messages name the kind of a document. -/
def kindText : Json → String
  | null => "null"
  | bool _ => "a boolean"
  | int _ => "a number"
  | float _ => "a number"
  | string _ => "a string"
  | array _ => "an array"
  | object _ => "an object"

/-- The text of a document that is a string. -/
def string? : Json → Option String
  | string s => some s
  | _ => none

/-- The first member of that name. -/
def member? (name : String) (members : List (String × Json)) : Option Json :=
  members.lookup name

mutual

/-- How many containers are open at the deepest place of a document. -/
def depth : Json → Nat
  | array items => depthItems items + 1
  | object members => depthMembers members + 1
  | _ => 0

/-- The depth of the deepest of some documents. -/
def depthItems : List Json → Nat
  | [] => 0
  | item :: rest => max item.depth (depthItems rest)

/-- The depth of the deepest member. -/
def depthMembers : List (String × Json) → Nat
  | [] => 0
  | (_, value) :: rest => max value.depth (depthMembers rest)

end

end Json

end NodeScript
