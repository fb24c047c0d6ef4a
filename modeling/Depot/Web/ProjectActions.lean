import Depot.Json.Members
import Depot.Json.Parser
import Depot.Service.Download
import Depot.Service.ProjectLog
import Depot.Service.Snapshots
import Depot.Web.Caller
import Depot.Web.Form
import Depot.Web.Reply
import Depot.Web.Resource

/-!
# Requests about projects

Each action reads the path first, then the query, then asks who calls, and reads the body last: of several
faults of a request the first in this order is told.
-/

namespace Depot.Web

open Service Time

/-- The body as a value of the form that `read` expects. -/
def readJson (r : Request) (read : Json → Option α) : Except Failure α :=
  match r.content with
  | .error reason => .error (.badRequest s!"failed to read body: {reason}")
  | .ok bytes =>
    match (Json.parse? bytes).bind read with
    | some value => .ok value
    | none => .error (.badRequest "invalid JSON: not of the expected form")

/-- A team and a title. -/
def readProjectBody (json : Json) : Option (String × String) := do
  let m ← Json.Members.of? ["team_id", "title"] json
  some (← m.required? "team_id" Json.str?, ← m.required? "title" Json.str?)

/-- A message and changes. -/
def readCommitBody (json : Json) : Option (String × List ProposedChange) := do
  let m ← Json.Members.of? ["message", "changes"] json
  some (← m.required? "message" Json.str?, ← m.required? "changes" (Json.list? ProposedChange.ofJson?))

/-- The commit to go back to. -/
def readRestoreBody (json : Json) : Option Int := do
  let m ← Json.Members.of? ["commit_id"] json
  m.required? "commit_id" Json.int64?

namespace Action

variable (settings : Settings) (caller? : Option Caller) (now : DateTime) (clock : Clock) (r : Request)

def createProject : Action Reply := do
  let caller ← ofExcept (requireCaller caller?)
  let (teamId, title) ← ofExcept (readJson r readProjectBody)
  return .projectMade (← operation (Service.createProject caller.userId teamId title now))

def listProjects : Action Reply := do
  let caller ← ofExcept (requireCaller caller?)
  return .projects (← operation (Service.listProjects caller.userId))

def createCommit (project : String) : Action Reply := do
  let projectId ← ofExcept (Parameter.number project)
  let caller ← ofExcept (requireCaller caller?)
  let (message, changes) ← ofExcept (readJson r readCommitBody)
  match ← operation (Service.commit ⟨projectId, caller.userId, message, changes⟩ now) with
  | .committed commitId sequence => return .committed commitId sequence
  | .needsBlocks hashes => return .needsBlocks hashes

def listCommits (project : String) : Action Reply := do
  let projectId ← ofExcept (Parameter.number project)
  let offset ← ofExcept (pageOffset (.parse r.query))
  let caller ← ofExcept (requireCaller caller?)
  return .history (← operation (Service.history settings caller.userId projectId offset))

def getCommit (project commit : String) : Action Reply := do
  let projectId ← ofExcept (Parameter.number project)
  let commitId ← ofExcept (Parameter.number commit)
  let caller ← ofExcept (requireCaller caller?)
  return .commit (← operation (Service.commitDetail caller.userId projectId commitId))

def getState (project : String) : Action Reply := do
  let projectId ← ofExcept (Parameter.number project)
  let fields ← ofExcept (BoundaryFields.ofForm (.parse r.query))
  let caller ← ofExcept (requireCaller caller?)
  let boundary ← ofExcept fields.boundary
  return .state (← operation (Service.stateAt caller.userId projectId boundary))

/-- Compares with the latest commit unless the query names another. -/
def getDiff (project : String) : Action Reply := do
  let projectId ← ofExcept (Parameter.number project)
  let form := Form.parse r.query
  let start ← ofExcept (form.required "from" Text.Decimal.int64?)
  let stop ← ofExcept (form.optional "to" Text.Decimal.int64?)
  let caller ← ofExcept (requireCaller caller?)
  let target := (stop.map CommitBoundary.id).getD .latest
  return .diff (← operation (Service.diff caller.userId projectId (.id start) target))

def restore (project : String) : Action Reply := do
  let projectId ← ofExcept (Parameter.number project)
  let caller ← ofExcept (requireCaller caller?)
  let commitId ← ofExcept (readJson r readRestoreBody)
  return .restored (← operation (Service.restore caller.userId projectId commitId clock))

def getDownload (project : String) : Action Reply := do
  let projectId ← ofExcept (Parameter.number project)
  let form := Form.parse r.query
  let path ← ofExcept (form.required "path" some)
  let fields ← ofExcept (BoundaryFields.ofForm form)
  let caller ← ofExcept (requireCaller caller?)
  if path.isEmpty then throw (.badRequest "path is required")
  let boundary ← ofExcept fields.boundary
  return .download (← operation (Service.resolveDownload settings caller.userId projectId path boundary clock))

end Action

end Depot.Web
