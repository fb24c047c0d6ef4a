import Depot.History
import Depot.Text.Decimal
import Depot.Text.Percent
import Depot.Web.Failure

/-!
# Fields of a query

A query is a list of fields `name=value` between ampersands, in which a plus stands for a blank and a percent
sign begins the digits of a byte.

- `Form.parse`: the fields of a query in their order.
- `Form.required`, `Form.optional`: the value of a field, which may be there only once. Fields that nobody
  asks for are ignored.
- `BoundaryFields`, `pageOffset`: the fields that several requests share.
-/

namespace Depot.Web

abbrev Form := List (String × String)

namespace Form

/-- The text that a part of a query stands for; bytes that are no text become replacement characters. -/
def decode (part : List Char) : String :=
  Text.Utf8.lossy (Text.Percent.decode ((Text.utf8 (String.ofList part)).map fun b => if b = 43 then 32 else b))

/-- A field up to its first equals sign; one without such a sign is empty. -/
def field (piece : List Char) : String × String :=
  (decode (piece.takeWhile (· != '=')), decode ((piece.dropWhile (· != '=')).drop 1))

def parse (query : String) : Form :=
  ((query.toList.splitOn '&').filter fun piece => !piece.isEmpty).map field

def refuse (detail : String) : Failure := .badRequest s!"Failed to deserialize query string: {detail}"

/-- A field that may be missing. -/
def optional (form : Form) (name : String) (read : String → Option α) : Except Failure (Option α) :=
  match form.filter fun f => f.1 == name with
  | [] => .ok none
  | [(_, text)] =>
    match read text with
    | some value => .ok (some value)
    | none => .error (refuse s!"{name}: invalid value")
  | _ => .error (refuse s!"duplicate field {name}")

/-- A field that has to be there. -/
def required (form : Form) (name : String) (read : String → Option α) : Except Failure α := do
  match ← form.optional name read with
  | some value => return value
  | none => throw (refuse s!"missing field {name}")

end Form

/-- The fields of a query that name a commit of a project: by its identifier, or by its number. -/
structure BoundaryFields where
  commit : Option Int
  sequence : Option Int
  deriving DecidableEq, Repr

namespace BoundaryFields

def ofForm (form : Form) : Except Failure BoundaryFields := do
  return ⟨← form.optional "commit" Text.Decimal.int64?, ← form.optional "sequence" Text.Decimal.int64?⟩

/-- The commit that is named, or the latest if none is. -/
def boundary : BoundaryFields → Except Failure CommitBoundary
  | ⟨none, none⟩ => .ok .latest
  | ⟨some commitId, none⟩ => .ok (.id commitId)
  | ⟨none, some number⟩ => .ok (.sequence number)
  | ⟨some _, some _⟩ => .error (.badRequest "use either commit or sequence, not both")

end BoundaryFields

/-- Where a page of a project's history begins; the first page if the query does not say. -/
def pageOffset (form : Form) : Except Failure Int := do
  return (← form.optional "offset" Text.Decimal.int64?).getD 0

end Depot.Web
