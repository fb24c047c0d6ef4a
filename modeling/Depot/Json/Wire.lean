import Depot.Json.Basic

/-!
# Values that are sent as JSON

- `Wire`: a type whose values are written as JSON and read back.
-/

namespace Depot

/-- A type whose values are written as JSON and read back. Reading accepts more than what writing produces:
other letter case, missing fields that have a value of their own, records written as arrays. -/
class Wire (α : Type) where
  toJson : α → Json
  ofJson? : Json → Option α

end Depot
