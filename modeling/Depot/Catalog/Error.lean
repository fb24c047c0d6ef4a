/-!
# Failures of the catalog

- `StoreError`: why an operation was refused; `StoreError.message` is the wording.
- `Violation`: what a database says about a statement; `Violation.classify` is the failure it becomes.
-/

namespace Depot.Catalog

inductive StoreError where
  | notFound (what : String)
  | alreadyExists (what : String)
  | database (detail : String)
  | config (detail : String)
  | constraint (detail : String)
  | internal (detail : String)
  deriving DecidableEq, Repr

def StoreError.message : StoreError → String
  | notFound what => s!"not found: {what}"
  | alreadyExists what => s!"already exists: {what}"
  | database detail => s!"database error: {detail}"
  | config detail => s!"configuration error: {detail}"
  | constraint detail => s!"constraint violation: {detail}"
  | internal detail => s!"internal error: {detail}"

/-- What a database says about a statement that it does not carry out. -/
inductive Violation where
  | check
  | notNull
  | unique
  | foreignKey
  | grammar
  | rowNotFound
  deriving DecidableEq, Repr

namespace Violation

def message : Violation → String
  | check => "CHECK constraint failed"
  | notNull => "NOT NULL constraint failed"
  | unique => "UNIQUE constraint failed"
  | foreignKey => "FOREIGN KEY constraint failed"
  | grammar => "syntax error"
  | rowNotFound => "no rows returned by a query that expected to return at least one row"

/-- A repeated key and a missing parent row are told apart; all else is a failure of the database. -/
def classify (v : Violation) (context : String) : StoreError :=
  match v with
  | unique => .alreadyExists context
  | foreignKey => .constraint s!"{context}: {foreignKey.message}"
  | other => .database other.message

end Violation

end Depot.Catalog
