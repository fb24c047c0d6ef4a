import Depot.Json.Basic

/-!
# Records in JSON

A record is written as an object of its fields, or as an array of them in their order.

- `Members.of?`: the fields found; in an object a field may not be repeated and foreign names are
  ignored, an array may not be longer than the record.
- `required?`, `optional?`, `defaulted?`: one field. A missing optional field of an object is absent; an
  array has to reach it.
- `unitVariant?`: a value from a list of names, written as its name alone or as an object that maps it
  to `null`.
- `tagged?`: a record whose form is named by one of its members.
-/

namespace Depot.Json

/-- The fields found in the text of a record. -/
structure Members where
  values : List (String × Json)
  /-- The record was written as an array. -/
  positional : Bool

namespace Members

/-- The fields called `names`, if the value has the shape of such a record. -/
def of? (names : List String) : Json → Option Members
  | .obj members =>
    if names.all fun name => (members.filter fun m => m.1 == name).length ≤ 1 then
      some ⟨members, false⟩
    else none
  | .arr items => if items.length ≤ names.length then some ⟨names.zip items, true⟩ else none
  | _ => none

/-- A field that has to be there. -/
def required? (m : Members) (name : String) (read : Json → Option α) : Option α :=
  (m.values.lookup name).bind read

/-- A field that may be missing or `null`. -/
def optional? (m : Members) (name : String) (read : Json → Option α) : Option (Option α) :=
  match m.values.lookup name with
  | some value => value.nullable? read
  | none => if m.positional then none else some none

/-- A field with a value of its own where it is missing. -/
def defaulted? (m : Members) (name : String) (value : α) (read : Json → Option α) : Option α :=
  match m.values.lookup name with
  | some given => read given
  | none => some value

end Members

/-- The value that `table` gives to the name written. -/
def unitVariant? (table : List (String × α)) : Json → Option α
  | .str name => table.lookup name
  | .obj [(name, .null)] => table.lookup name
  | _ => none

/-- The name under `tag` and the record beside it; in an array the name comes first. -/
def tagged? (tag : String) : Json → Option (String × Json)
  | .obj members =>
    match members.filter fun m => m.1 == tag with
    | [(_, .str name)] => some (name, .obj (members.filter fun m => m.1 != tag))
    | _ => none
  | .arr (.str name :: items) => some (name, .arr items)
  | _ => none

end Depot.Json
