import Depot.Content.Hash
import Depot.Json.Members
import Depot.Text.Quoted

/-!
# Changes to the files of a project

- `ChangeKind`: a path is added, modified or deleted.
- `validatePath`: the paths a project may hold.
- `ProposedChange`: one path of a commit to be made.
-/

namespace Depot

open Content

inductive ChangeKind where
  | add
  | modify
  | delete
  deriving DecidableEq, Repr, Inhabited

namespace ChangeKind

/-- The number under which a kind is stored. -/
def code : ChangeKind → Int
  | add => 1
  | modify => 2
  | delete => 3

def ofCode (code : Int) : Except Error ChangeKind :=
  if code = 1 then .ok add
  else if code = 2 then .ok modify
  else if code = 3 then .ok delete
  else .error (.invalidChangeKind (toString code))

def isDelete (kind : ChangeKind) : Bool := kind == delete

def name : ChangeKind → String
  | add => "add"
  | modify => "modify"
  | delete => "delete"

def all : List ChangeKind := [add, modify, delete]

def toJson (kind : ChangeKind) : Json := .str kind.name

def ofJson? (json : Json) : Option ChangeKind := json.unitVariant? (all.map fun kind => (kind.name, kind))

end ChangeKind

/-! ## Paths -/

/-- Most bytes of a path. -/
def maxPathBytes : Nat := 1024

/-- The parts of a text between its slashes. -/
def segments (path : String) : List (List Char) := path.toList.splitOn '/'

/-- A segment that is no name of its own. -/
def isRelativeSegment (segment : List Char) : Bool :=
  segment == [] || segment == ['.'] || segment == ['.', '.']

/-- What is wrong with a path, the first thing found. -/
def pathFault? (path : String) : Option String :=
  if path.isEmpty then some "empty"
  else if path.utf8ByteSize > maxPathBytes then some "too long"
  else if path.toList.head? = some '/' then some "must be relative"
  else if path.toList.any fun c => c == '\\' || c.toNat == 0 then some "contains a forbidden character"
  else if (segments path).any isRelativeSegment then some "contains an empty or relative segment"
  else none

/-- Accepts the paths a project may hold: relative, in normal form, and not too long. -/
def validatePath (path : String) : Except Error Unit :=
  match pathFault? path with
  | some reason => .error (.invalidPath s!"{Text.quoted path}: {reason}")
  | none => .ok ()

/-! ## Proposed changes -/

/-- One path of a commit to be made. -/
structure ProposedChange where
  path : String
  contentHash : FileHash
  kind : ChangeKind
  deriving DecidableEq

namespace ProposedChange

def toJson (c : ProposedChange) : Json :=
  .obj [("path", .str c.path), ("content_hash", c.contentHash.toJson), ("change_kind", c.kind.toJson)]

def ofJson? (json : Json) : Option ProposedChange := do
  let m ← Json.Members.of? ["path", "content_hash", "change_kind"] json
  some ⟨← m.required? "path" Json.str?, ← m.required? "content_hash" FileHash.ofJson?,
    ← m.required? "change_kind" ChangeKind.ofJson?⟩

end ProposedChange

end Depot
