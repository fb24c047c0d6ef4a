import Depot.Service.Call
import Depot.Snapshot
import Depot.Text.Blank

/-!
# Projects and their commits

- `createProject`, `listProjects`, `getProject`.
- `commit`: a commit, or the content that has to be uploaded before it.
- `history`, `commitDetail`, `resolveSequence`: reading the log.
-/

namespace Depot.Service

open Content Time

/-- Most bytes of a project's title. -/
def maxTitleBytes : Nat := 256

/-- Makes a project in a team, with its empty first commit; who makes it owns it. -/
def createProject (creator teamId title : String) (now : DateTime) : Op Project := do
  let title := Text.trim title
  if title.isEmpty || maxTitleBytes < title.utf8ByteSize then
    throw (.malformedRequest s!"project title must be 1 to {maxTitleBytes} characters")
  if teamId.isEmpty then throw (.malformedRequest "team_id is required")
  let level : AccessLevel ← askCatalog (.teamAccess creator teamId)
  if !level.canWrite then throw (.insufficientPermission s!"write access to team {teamId} required")
  askCatalog (.createProject teamId title creator now)

/-- The projects that the user can read. -/
def listProjects (userId : String) : Op (List Project) := askCatalog (.listProjects userId)

def getProject (userId : String) (projectId : Int) : Op Project := do
  requireAccess userId projectId .read
  match ← askCatalog (.getProject projectId) with
  | some project => return project
  | none => throw (.contentNotFound s!"project {projectId}")

/-! ## Commits -/

/-- Most attempts at a commit whose sequence number another commit takes. -/
def maxCommitAttempts : Nat := 3

/-- Makes calls one after another as long as something already exists, but only so many after the first. Answers the
number of the call that succeeded, and its reply. -/
def persist (r : Nat → Catalog.Request) (number : Nat) : Nat → Op ((i : Nat) × (r i).Reply)
  | 0 => return ⟨number, ← askCatalog (r number)⟩
  | more + 1 => do
    match ← attempt (.catalog (r number)) with
    | .ok reply => return ⟨number, reply⟩
    | .error (.alreadyExists _) => persist r (number + 1) more
    | .error e => throw (.ofStore e)

/-- Accepts changes of valid paths, each named once. -/
def validateChanges : List String → List ProposedChange → Except ServiceError Unit
  | _, [] => .ok ()
  | seen, change :: rest =>
    match validatePath change.path with
    | .error e => .error (.ofContent e)
    | .ok () =>
      if change.path ∈ seen then .error (.malformedRequest s!"path {change.path} appears more than once")
      else validateChanges (change.path :: seen) rest

/-- What a commit asks the catalog for. -/
def draftOf (request : CommitRequest) (now : DateTime) : Catalog.CommitDraft where
  projectId := request.projectId
  authorId := request.authorId
  comment := request.message
  revisions := request.changes.map fun c => ⟨c.path, c.contentHash.hex, c.kind⟩
  createdAt := now

/-- Makes a commit, or names every content hash that is not completely uploaded. -/
def commit (request : CommitRequest) (now : DateTime) : Op CommitOutcome := do
  requireAccess request.authorId request.projectId .write
  lift id (validateChanges [] request.changes)
  match ← persist (fun _ => .createCommit (draftOf request now)) 0 (maxCommitAttempts - 1) with
  | ⟨_, .committed row⟩ => return .committed row.commitId row.sequenceNumber
  | ⟨_, .missingContent hashes⟩ =>
    let missing ← lift (fun e => .internal e.message) (hashes.mapM FileHash.parse)
    return .needsBlocks missing

/-! ## The log -/

/-- One page of the log, newest first. -/
def history (settings : Settings) (userId : String) (projectId offset : Int) : Op HistoryPage := do
  if offset < 0 then throw (.malformedRequest "offset must not be negative")
  requireAccess userId projectId .read
  let total ← askCatalog (.countCommits projectId)
  let commits ← askCatalog (.listCommits projectId offset settings.historyPageSize)
  return ⟨total, offset, commits⟩

/-- The files of some revisions, in the order of their paths. -/
def filesOf (revisions : List Catalog.Revision) : Op (List FileState) := do
  let files ← lift .ofStore (revisions.mapM Catalog.Revision.fileState)
  return files.mergeSort fun a b => decide (a.path ≤ b.path)

/-- A commit and the revisions that it made. -/
def commitDetail (userId : String) (projectId commitId : Int) : Op CommitDetail := do
  requireAccess userId projectId .read
  match ← askCatalog (.getCommit projectId commitId) with
  | none => throw (.contentNotFound s!"commit {commitId} in project {projectId}")
  | some commit =>
    let revisions ← askCatalog (.listCommitRevisions commitId)
    return ⟨commit, ← filesOf revisions⟩

/-- The commit with a sequence number. -/
def resolveSequence (userId : String) (projectId number : Int) : Op Int := do
  requireAccess userId projectId .read
  return (← resolveBoundary projectId (.sequence number)).commitId

end Depot.Service
