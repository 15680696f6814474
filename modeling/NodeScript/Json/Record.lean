import NodeScript.Json.Written

/-!
# Records in JSON

A record is written as an object with its fields by name, or as an array of its fields in order. In an object, fields that the
record does not know are passed over, whatever they hold, and a known one may not be repeated; an array may end early but not
go on.
-/

namespace NodeScript.Written

/-- The fields of a record that are there, in the record's own order. -/
structure Fields where
  /-- Whether they were given in order, as an array. -/
  positional : Bool
  values : List (Option Written)

/-- The value of a field among members: none when it is missing. A repeated field is refused. -/
def fieldValue? (name : String) (members : List (String × Written)) : Option (Option Written) :=
  match members.filter (·.1 == name) with
  | [] => some none
  | [(_, value)] => some (some value)
  | _ => none

/-- Members under their names, if all names are text. -/
def textMembers? (members : List (Option String × Written)) : Option (List (String × Written)) :=
  members.mapM fun (name, value) => name.map fun name => (name, value)

/-- The fields with the given names. -/
def fields? (names : List String) : Written → Option Fields
  | object members => do
    let members ← textMembers? members
    let values ← names.mapM fun name => fieldValue? name members
    return ⟨false, values⟩
  | array items =>
    if items.length ≤ names.length then
      some ⟨true, items.map some ++ List.replicate (names.length - items.length) none⟩
    else none
  | _ => none

/-- An integer from zero to below a bound. -/
def natural? (bound : Nat) : Written → Option Nat
  | number n => match n.document? with
    | some (.int value) => if 0 ≤ value ∧ value < bound then some value.toNat else none
    | _ => none
  | _ => none

/-- A text. -/
def text? : Written → Option String
  | string s => s
  | _ => none

end NodeScript.Written
