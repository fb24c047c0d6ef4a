import Depot.Objects.Error
import Depot.Text.Quoted

/-!
# Keys as paths

A key names the file that its components lead to. Empty components and single dots are skipped, save at
the beginning; two dots are refused anywhere.

- `Key.parse`: the components of a key, or why it is refused.
-/

namespace Depot.Objects

/-- The components of a key; with a slash or a dot at its end it means a directory. -/
structure Key where
  names : List String
  asDirectory : Bool
  deriving DecidableEq, Repr

namespace Key

/-- The parts of a key between its slashes. -/
def parts (key : String) : List String :=
  (key.toList.splitOn '/').map String.ofList

/-- Whether a part adds nothing to the path. -/
def isSkipped (part : String) : Bool := part == "" || part == "."

/-- Whether a key would lead out of the directory that it is resolved in. -/
def isUnsafe (key : String) : Bool :=
  (parts key).head? == some "." || (parts key).contains ".."

def parse (key : String) : Except ObjectError Key :=
  if key.isEmpty ∨ key.toList.head? = some '/' ∨ key.toList.head? = some '\\' then
    .error (.invalidKey s!"invalid key: {Text.quoted key}")
  else if isUnsafe key then .error (.invalidKey s!"contains unsafe path component: {key}")
  else .ok ⟨(parts key).filter fun part => !isSkipped part, (parts key).getLast?.any isSkipped⟩

end Key

end Depot.Objects
