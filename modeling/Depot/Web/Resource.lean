import Depot.Text.Decimal
import Depot.Text.Percent
import Depot.Web.Failure
import Depot.Web.Message

/-!
# Resources

- `Resource`: what a path names, with the parts of the path that vary as they were written.
- `Resource.ofPath?`: the resource of a path.
- `Resource.methods`: what can be done with a resource.
- `Parameter.text`, `Parameter.number`: the value of a part that varies.
-/

namespace Depot.Web

inductive Resource where
  | health
  | projects
  | commits (project : String)
  | commit (project commit : String)
  | state (project : String)
  | diff (project : String)
  | restore (project : String)
  | download (project : String)
  | block (hash : String)
  | blob (key : String)
  | tokens
  | token (id : String)
  | projectGrants (project : String)
  | teamGrants (team : String)
  | metrics
  deriving DecidableEq, Repr

namespace Resource

/-- A resource whose name ends with a part that varies, which must not be empty. -/
def named (part : String) (r : Resource) : Option Resource := if part.isEmpty then none else some r

/-- The resource of the parts of a path below the version. -/
def ofParts? : List String → Option Resource
  | ["health"] => some health
  | ["projects"] => some projects
  | ["projects", p, "commits"] => some (commits p)
  | ["projects", p, "commits", c] => named c (commit p c)
  | ["projects", p, "state"] => some (state p)
  | ["projects", p, "diff"] => some (diff p)
  | ["projects", p, "restore"] => some (restore p)
  | ["projects", p, "download"] => some (download p)
  | ["blocks", hash] => named hash (block hash)
  | ["admin", "tokens"] => some tokens
  | ["admin", "tokens", id] => named id (token id)
  | ["admin", "permissions", "projects", p] => named p (projectGrants p)
  | ["admin", "permissions", "teams", t] => named t (teamGrants t)
  | "blobs" :: parts => named ("/".intercalate parts) (blob ("/".intercalate parts))
  | _ => none

def ofPath? (path : String) : Option Resource :=
  match (path.toList.splitOn '/').map String.ofList with
  | ["", "metrics"] => some metrics
  | "" :: "v1" :: parts => ofParts? parts
  | _ => none

/-- The methods of a resource in the order of their names. -/
def methods : Resource → List Method
  | health | commit _ _ | state _ | diff _ | download _ | blob _ | metrics => [.get, .head]
  | projects | commits _ | tokens => [.get, .head, .post]
  | restore _ => [.post]
  | block _ | projectGrants _ | teamGrants _ => [.put]
  | token _ => [.delete]

end Resource

namespace Parameter

def refuse (detail : String) : Failure := .badRequest s!"Invalid URL: {detail}"

/-- The text of a part with its escapes resolved. -/
def text (part : String) : Except Failure String :=
  match Text.ofUtf8? (Text.Percent.decode (Text.utf8 part)) with
  | some text => .ok text
  | none => .error (refuse s!"Invalid UTF-8 in {part}")

/-- A part that is a signed 64-bit number. -/
def number (part : String) : Except Failure Int := do
  let digits ← text part
  match Text.Decimal.int64? digits with
  | some value => return value
  | none => throw (refuse s!"Cannot parse {digits} to a number")

end Parameter

end Depot.Web
