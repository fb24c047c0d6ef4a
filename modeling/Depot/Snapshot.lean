import Depot.History

/-!
# The files of a project at one commit

- `FileState`: the revision that a path has.
- `ProjectState`: all files, ascending by path; `ProjectState.get?` finds one by bisection.
- `StateDiff`, `compareStates`: what differs between two states, path by path.
- `CommitDetail`: a commit and the revisions it made.
-/

namespace Depot

open Content Time

structure FileState where
  path : String
  contentHash : FileHash
  kind : ChangeKind
  commitId : Int
  revisionId : Int
  chunkCount : Int
  deriving DecidableEq

namespace FileState

def toJson (f : FileState) : Json :=
  .obj [("path", .str f.path), ("content_hash", f.contentHash.toJson), ("change_kind", f.kind.toJson),
    ("commit_id", .int f.commitId), ("revision_id", .int f.revisionId), ("chunk_count", .int f.chunkCount)]

def ofJson? (json : Json) : Option FileState := do
  let m ← Json.Members.of? ["path", "content_hash", "change_kind", "commit_id", "revision_id", "chunk_count"] json
  some ⟨← m.required? "path" Json.str?, ← m.required? "content_hash" FileHash.ofJson?,
    ← m.required? "change_kind" ChangeKind.ofJson?, ← m.required? "commit_id" Json.int64?,
    ← m.required? "revision_id" Json.int64?, ← m.required? "chunk_count" Json.int64?⟩

end FileState

/-! ## Order by path -/

/-- The distinct texts of a list in ascending order of their bytes. -/
def sortedDistinct (texts : List String) : List String :=
  texts.eraseDups.mergeSort fun a b => decide (a ≤ b)

/-- The last file with a path, which stands for the path if there are several. -/
def lastWithPath? (files : List FileState) (path : String) : Option FileState :=
  files.reverse.find? fun f => f.path == path

/-! ## States -/

structure ProjectState where
  projectId : Int
  commitId : Int
  sequenceNumber : Int
  /-- Ascending by path. -/
  files : List FileState

namespace ProjectState

def toJson (s : ProjectState) : Json :=
  .obj [("project_id", .int s.projectId), ("commit_id", .int s.commitId),
    ("sequence_number", .int s.sequenceNumber), ("files", .ofList FileState.toJson s.files)]

def ofJson? (json : Json) : Option ProjectState := do
  let m ← Json.Members.of? ["project_id", "commit_id", "sequence_number", "files"] json
  some ⟨← m.required? "project_id" Json.int64?, ← m.required? "commit_id" Json.int64?,
    ← m.required? "sequence_number" Json.int64?, ← m.required? "files" (Json.list? FileState.ofJson?)⟩

/-- The position that halving a range of `size` positions from `base` on ends at: the upper half is kept
unless its first path lies behind the one sought. -/
def bisect (files : Array FileState) (path : String) (base size : Nat) : Nat :=
  if size ≤ 1 then base
  else
    let half := size / 2
    let behind := (files[base + half]?.map fun f => decide (path < f.path)).getD true
    bisect files path (if behind then base else base + half) (size - half)
termination_by size
decreasing_by omega

/-- The file at a path. -/
def get? (s : ProjectState) (path : String) : Option FileState :=
  let files := s.files.toArray
  files[bisect files path 0 files.size]?.filter fun f => f.path == path

end ProjectState

/-! ## Differences -/

/-- A path whose file differs between two states. -/
structure ChangedPath where
  path : String
  before : Option FileState
  after : Option FileState
  deriving DecidableEq

namespace ChangedPath

def toJson (c : ChangedPath) : Json :=
  .obj [("path", .str c.path), ("from", .ofOption FileState.toJson c.before),
    ("to", .ofOption FileState.toJson c.after)]

def ofJson? (json : Json) : Option ChangedPath := do
  let m ← Json.Members.of? ["path", "from", "to"] json
  some ⟨← m.required? "path" Json.str?, ← m.optional? "from" FileState.ofJson?,
    ← m.optional? "to" FileState.ofJson?⟩

end ChangedPath

structure StateDiff where
  fromCommitId : Int
  toCommitId : Int
  unchanged : List FileState
  changed : List ChangedPath

namespace StateDiff

def toJson (d : StateDiff) : Json :=
  .obj [("from_commit_id", .int d.fromCommitId), ("to_commit_id", .int d.toCommitId),
    ("unchanged", .ofList FileState.toJson d.unchanged), ("changed", .ofList ChangedPath.toJson d.changed)]

def ofJson? (json : Json) : Option StateDiff := do
  let m ← Json.Members.of? ["from_commit_id", "to_commit_id", "unchanged", "changed"] json
  some ⟨← m.required? "from_commit_id" Json.int64?, ← m.required? "to_commit_id" Json.int64?,
    ← m.required? "unchanged" (Json.list? FileState.ofJson?),
    ← m.required? "changed" (Json.list? ChangedPath.ofJson?)⟩

end StateDiff

/-- The file a path has on both sides, if it is the same revision. -/
def sameRevision? (c : ChangedPath) : Option FileState :=
  match c.before, c.after with
  | some before, some after => if before.revisionId = after.revisionId then some after else none
  | _, _ => none

/-- Every path of either state with its file on both sides, ascending. -/
def pairByPath (before after : List FileState) : List ChangedPath :=
  (sortedDistinct ((before ++ after).map FileState.path)).map fun path =>
    ⟨path, lastWithPath? before path, lastWithPath? after path⟩

/-- What differs between two states; a path counts as unchanged if it has the same revision in both. -/
def compareStates (a b : ProjectState) : StateDiff :=
  let pairs := pairByPath a.files b.files
  { fromCommitId := a.commitId
    toCommitId := b.commitId
    unchanged := pairs.filterMap sameRevision?
    changed := pairs.filter fun c => (sameRevision? c).isNone }

/-! ## Commits with their revisions -/

structure CommitDetail where
  commit : CommitSummary
  revisions : List FileState

namespace CommitDetail

def toJson (d : CommitDetail) : Json :=
  .obj [("commit", d.commit.toJson), ("revisions", .ofList FileState.toJson d.revisions)]

def ofJson? (json : Json) : Option CommitDetail := do
  let m ← Json.Members.of? ["commit", "revisions"] json
  some ⟨← m.required? "commit" CommitSummary.ofJson?, ← m.required? "revisions" (Json.list? FileState.ofJson?)⟩

end CommitDetail

end Depot
