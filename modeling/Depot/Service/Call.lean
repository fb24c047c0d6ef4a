import Depot.Access
import Depot.Catalog.Request
import Depot.Objects.Store
import Depot.Service.Error
import Depot.Task

/-!
# Operations of the service

An operation is a task that calls the catalog and the object store one call at a time, so it can be run
alone, beside others, or over stores that fail.

- `Call`: one call to either store; `Stores.answer` carries it out.
- `Op`: an operation, which ends with the first failure that it does not catch.
- `requireAccess`, `resolveBoundary`: checks that operations share.
-/

namespace Depot.Service

open Content Time

/-- One call to the catalog or to the object store. -/
inductive Call where
  | catalog (r : Catalog.Request)
  | objects (r : Objects.Request)

@[reducible]
def Call.Reply : Call → Type
  | catalog r => Except Catalog.StoreError r.Reply
  | objects r => Except Objects.ObjectError r.Reply

/-- The catalog and the object store together. -/
structure Stores where
  catalog : Catalog
  objects : Objects.ObjectStore

/-- Carries a call out. -/
def Stores.answer : (c : Call) → Stores → c.Reply × Stores
  | .catalog r, s =>
    let (reply, next) := s.catalog.answer r
    (reply, { s with catalog := next })
  | .objects r, s =>
    let (reply, next) := s.objects.answer r
    (reply, { s with objects := next })

abbrev CallTask := Task Call Call.Reply

abbrev Op := ExceptT ServiceError CallTask

/-- A call whose failure the operation sees. -/
def attempt (c : Call) : Op c.Reply := ExceptT.lift (Task.ask c)

/-- A call to the catalog, whose failure ends the operation. -/
def askCatalog (r : Catalog.Request) : Op r.Reply := do
  match ← attempt (.catalog r) with
  | .ok reply => return reply
  | .error e => throw (.ofStore e)

/-- A call to the object store, whose failure ends the operation. -/
def askObjects (r : Objects.Request) : Op r.Reply := do
  match ← attempt (.objects r) with
  | .ok reply => return reply
  | .error e => throw (.ofObjects e)

/-- The value, or the failure it stands for. -/
def lift (fail : ε → ServiceError) : Except ε α → Op α
  | .ok value => return value
  | .error e => throw (fail e)

/-- What is set for the operations. -/
structure Settings where
  maxBlockSize : Nat
  /-- How long download URLs are good for, in seconds. -/
  urlLifetime : Nat
  historyPageSize : Nat
  deriving DecidableEq, Repr

def Settings.ofConfig (config : Config.Server) : Settings :=
  ⟨config.maxBlockSize, config.downloadUrlTtl, config.historyPageSize⟩

/-- Fails unless the user has the level on the project; a project that is not there is one that nobody has
any level on. -/
def requireAccess (userId : String) (projectId : Int) (required : AccessLevel) : Op Unit := do
  let level : AccessLevel ← askCatalog (.projectAccess userId projectId)
  if ¬ required ≤ level then
    throw (.insufficientPermission s!"{required.name} access to project {projectId} required")

/-- The commit of a project that a boundary names. -/
def resolveBoundary (projectId : Int) (boundary : CommitBoundary) : Op CommitSummary := do
  let commit ← match boundary with
    | .latest => askCatalog (.latestCommit projectId)
    | .id commitId => askCatalog (.getCommit projectId commitId)
    | .sequence number => askCatalog (.getCommitBySequence projectId number)
  match commit with
  | some commit => return commit
  | none => throw (.contentNotFound s!"commit {boundary.describe} in project {projectId}")

end Depot.Service
