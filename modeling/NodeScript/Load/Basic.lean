import NodeScript.Load.Error

/-!
# Loading parts of a document

A loader of `α` reads a document at a place and either gives an `α` or notes errors in the log. Two loaders side by side both
run, whatever the first one gives, so that one pass finds as many errors as it can.
-/

namespace NodeScript

/-- A place in a document: the path to it and the position of the innermost node around it that has one. -/
structure Place where
  path : Path
  span : Option Span
  deriving DecidableEq, Repr

/-- What reads an `α` at a place; the log goes through it. -/
def Load (α : Type) : Type :=
  Place → ErrorLog → Option α × ErrorLog

namespace Load

variable {α β : Type}

/-- Notes an error at the place, and goes on. -/
def note (cause : LoadCause) : Load Unit := fun place log =>
  (some (), log.push ⟨cause.code, cause.message, place.path.text, place.span⟩)

/-- Notes an error at the place, and gives nothing. -/
def fail (cause : LoadCause) : Load α := fun place log =>
  (none, ((note cause) place log).2)

/-- Both loaders run; together they give something when both do. -/
def both (f : Load (α → β)) (x : Load α) : Load β := fun place log =>
  let (g, log) := f place log
  let (a, log) := x place log
  (g.bind fun g => a.map g, log)

instance : Applicative Load where
  pure a := fun _ log => (some a, log)
  map f x := fun place log =>
    let (a, log) := x place log
    (a.map f, log)
  seq f x := both f (x ())

/-- Loads one step further into the document. -/
def within (segment : Segment) (x : Load α) : Load α := fun place log =>
  x { place with path := place.path ++ [segment] } log

/-- Loads below a node: its position is the one of errors from here on, if it has one. -/
def below (span : Option Span) (x : Load α) : Load α := fun place log =>
  x { place with span := span.or place.span } log

/-- Loads the items of an array from an index on. -/
def items (x : Json → Load α) : Nat → List Json → Load (List α)
  | _, [] => pure []
  | i, item :: rest => List.cons <$> within (.index i) (x item) <*> items x (i + 1) rest

/-- Loads the values of members under their names. -/
def named (x : Json → Load α) : List (String × Json) → Load (List (String × α))
  | [] => pure []
  | (name, value) :: rest =>
    (fun a rest => (name, a) :: rest) <$> within (.key name) (x value) <*> named x rest

/-! ## Fields of a node -/

/-- A field that has to be there. -/
def field (tag name : String) (x : Json → Load α) (members : List (String × Json)) : Load α :=
  match Json.member? name members with
  | none => fail (.fieldMissing tag name)
  | some value => within (.key name) (x value)

/-- A field that may be missing. -/
def field? (name : String) (x : Json → Load α) (members : List (String × Json)) : Load (Option α) :=
  match Json.member? name members with
  | none => pure none
  | some value => some <$> within (.key name) (x value)

/-- A string in a field. -/
def text (field : String) : Json → Load String
  | .string s => pure s
  | got => fail (.fieldNotString field got)

/-- An array in a field. -/
def array (field : String) (x : Json → Load α) : Json → Load (List α)
  | .array list => items x 0 list
  | got => fail (.fieldNotArray field got)

/-- An object of named values in a field. -/
def object (field : String) (x : Json → Load α) : Json → Load (List (String × α))
  | .object members => named x members
  | got => fail (.fieldNotObject field got)

/-- A field with an array that may be missing, which then is empty. -/
def arrayField (name : String) (x : Json → Load α) (members : List (String × Json)) : Load (List α) :=
  (·.getD []) <$> field? name (array name x) members

end Load

/-! ## Positions of nodes -/

/-- A line or a column: an integer of 32 bits without a sign. -/
def Json.coordinate? : Json → Option UInt32
  | .int n => if 0 ≤ n ∧ n < UInt32.size then some n.toNat.toUInt32 else none
  | _ => none

/-- The column of a node with a line; the first one when none is given. A column that is no number is noted, and the first
one stands in for it. -/
def Load.column (members : List (String × Json)) : Load UInt32 :=
  match Json.member? "column" members with
  | none => pure 1
  | some value => match value.coordinate? with
    | some c => pure c
    | none => (fun _ => 1) <$> note .columnNotNumber

/-- The position of a node, if it has a line. A line that is no number is noted, and the node then has no position. -/
def Load.span (members : List (String × Json)) : Load (Option Span) :=
  match Json.member? "line" members with
  | none => pure none
  | some value => match value.coordinate? with
    | some line => (fun c => some ⟨line, c⟩) <$> column members
    | none => (fun _ => none) <$> note .lineNotNumber

/-- Loads a node with its position. Errors of the position itself stand at the position around the node. -/
def Load.node {α : Type} (members : List (String × Json)) (x : Option Span → Load α) : Load α := fun place log =>
  let (span, log) := Load.span members place log
  below span.join (x span.join) place log

end NodeScript
