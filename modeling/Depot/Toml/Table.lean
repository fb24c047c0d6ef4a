import Depot.Json.Basic

/-!
# Tables of a TOML document

A table is built up by headers and by assignments. How a table came about decides what may still be added
to it.

- `Node`: a value, a table, or an array of tables, under a name.
- `openTable`, `openArray`: what a header does.
- `assign`: what an assignment does.
- `toJson`: the finished document.
-/

namespace Depot.Toml

/-- How a table came about. -/
inductive Origin where
  /-- By a header of its own. -/
  | header
  /-- On the way to a table with a header. -/
  | implied
  /-- By an assignment to a name with dots. -/
  | dotted
  deriving DecidableEq, Repr

inductive Node where
  /-- A value is complete, also if it is a table in braces. -/
  | value (value : Json)
  | table (origin : Origin) (members : List (String × Node))
  /-- Tables of one name, each with a header; the last one can still grow. -/
  | array (before : List Json) (last : List (String × Node))

abbrev Members := List (String × Node)

namespace Members

/-- The members with the node of a name replaced. -/
def replace (m : Members) (name : String) (node : Node) : Members :=
  m.map fun entry => if entry.1 = name then (name, node) else entry

end Members

mutual

def Node.toJson : Node → Json
  | .value v => v
  | .table _ members => .obj (toEntries members)
  | .array before last => .arr (before ++ [.obj (toEntries last)])

def toEntries : List (String × Node) → List (String × Json)
  | [] => []
  | (name, node) :: rest => (name, node.toJson) :: toEntries rest

end

def Members.toJson (m : Members) : Json := .obj (toEntries m)

/-- Makes the table of a header, which must not have been made before, save on the way to another. -/
def openTable : List String → Members → Option Members
  | [], _ => none
  | [name], m =>
    match m.lookup name with
    | none => some (m ++ [(name, .table .header [])])
    | some (.table .implied members) => some (m.replace name (.table .header members))
    | some _ => none
  | name :: rest, m =>
    match m.lookup name with
    | none => (openTable rest []).map fun inner => m ++ [(name, .table .implied inner)]
    | some (.table origin members) =>
      (openTable rest members).map fun inner => m.replace name (.table origin inner)
    | some (.array before last) => (openTable rest last).map fun inner => m.replace name (.array before inner)
    | some (.value _) => none

/-- Adds one table to the array of a header. -/
def openArray : List String → Members → Option Members
  | [], _ => none
  | [name], m =>
    match m.lookup name with
    | none => some (m ++ [(name, .array [] [])])
    | some (.array before last) => some (m.replace name (.array (before ++ [Members.toJson last]) []))
    | some _ => none
  | name :: rest, m =>
    match m.lookup name with
    | none => (openArray rest []).map fun inner => m ++ [(name, .table .implied inner)]
    | some (.table origin members) =>
      (openArray rest members).map fun inner => m.replace name (.table origin inner)
    | some (.array before last) => (openArray rest last).map fun inner => m.replace name (.array before inner)
    | some (.value _) => none

/-- Assigns to a name with dots. The tables on the way may not have headers of their own, and the innermost
one has to come from such an assignment. -/
def assign (v : Json) : List String → Members → Option Members
  | [], _ => none
  | [name], m => if (m.lookup name).isSome then none else some (m ++ [(name, .value v)])
  | name :: rest, m =>
    match m.lookup name with
    | none => (assign v rest []).map fun inner => m ++ [(name, .table .dotted inner)]
    | some (.table .dotted members) =>
      (assign v rest members).map fun inner => m.replace name (.table .dotted inner)
    | some (.table .implied members) =>
      if rest.length = 1 then none
      else (assign v rest members).map fun inner => m.replace name (.table .implied inner)
    | some (.array before last) =>
      if rest.length = 1 then none
      else (assign v rest last).map fun inner => m.replace name (.array before inner)
    | some _ => none

/-- Assigns below the header in force. -/
def assignBelow (v : Json) (key : List String) : List String → Members → Option Members
  | [], m => assign v key m
  | name :: rest, m =>
    match m.lookup name with
    | some (.table origin members) =>
      (assignBelow v key rest members).map fun inner => m.replace name (.table origin inner)
    | some (.array before last) =>
      (assignBelow v key rest last).map fun inner => m.replace name (.array before inner)
    | _ => none

end Depot.Toml
