import Depot.Access
import Depot.Catalog.Chunks

/-!
# Projects, commits and snapshots

- A project begins with an empty commit and a grant of ownership to its maker.
- A commit is made only if all content it refers to is complete; its number is one past the last one.
- `stateAt`: the latest revision of every path up to a commit, deletions left out.
- `restoreCommit`: a commit with the fewest revisions that bring an earlier state back.
-/

namespace Depot.Catalog

open Content Time

/-! ## Projects -/

def project? (c : Catalog) (projectId : Int) : Option Project :=
  c.projects.find? fun p => p.projectId == projectId

def commitsOf (c : Catalog) (projectId : Int) : List CommitSummary :=
  c.commits.filter fun k => k.projectId == projectId

/-- The number of the next commit of a project. -/
def nextSequence (c : Catalog) (projectId : Int) : Int :=
  (greatest? ((c.commitsOf projectId).map CommitSummary.sequenceNumber)).getD 0 + 1

/-- Makes a project with its first commit and its maker as owner. -/
def createProject (c : Catalog) (teamId title createdBy : String) (createdAt : DateTime) :
    Except StoreError (Project × Catalog) :=
  if c.projects.any fun p => p.teamId == teamId && p.title == title then
    .error (Violation.unique.classify s!"project '{title}' in team '{teamId}'")
  else
    let project : Project := ⟨c.projects.length + 1, teamId, title, createdBy, createdAt⟩
    let commit : CommitSummary :=
      ⟨c.commits.length + 1, project.projectId, 1, createdBy, initialCommitMessage, 0, createdAt⟩
    .ok (project, { c with
      projects := c.projects ++ [project]
      commits := c.commits ++ [commit]
      projectGrants := c.projectGrants ++
        [⟨createdBy, project.projectId, AccessLevel.owner.code, createdAt⟩] })

/-! ## Commits -/

/-- Adds a commit to a project that exists. -/
def insertCommit (c : Catalog) (projectId : Int) (authorId comment : String) (fileCount : Int)
    (createdAt : DateTime) : Except StoreError (CommitSummary × Catalog) :=
  let sequence := c.nextSequence projectId
  if (c.project? projectId).isNone then
    .error (Violation.foreignKey.classify s!"commit #{sequence} of project {projectId}")
  else
    let commit : CommitSummary :=
      ⟨c.commits.length + 1, projectId, sequence, authorId, comment, fileCount, createdAt⟩
    .ok (commit, { c with commits := c.commits ++ [commit] })

/-- The row of a revision that a commit makes. -/
def revisionRow (c : Catalog) (commit : CommitSummary) (draft : RevisionDraft) (chunkCount : Int) : Revision :=
  ⟨c.revisions.length + 1, commit.projectId, draft.path, commit.commitId, draft.contentHash, draft.kind.code,
    chunkCount⟩

/-- Adds the revisions of a commit in their order. -/
def insertRevisions (c : Catalog) (commit : CommitSummary) (chunkCount : String → Int) :
    List RevisionDraft → Catalog
  | [] => c
  | draft :: rest =>
    let row := c.revisionRow commit draft (chunkCount draft.contentHash)
    insertRevisions { c with revisions := c.revisions ++ [row] } commit chunkCount rest

/-- The content hashes of revisions, each once, in the order in which they are first named. -/
def distinctHashes (revisions : List RevisionDraft) : List String :=
  (revisions.map RevisionDraft.contentHash).eraseDups

/-- What came of a commit. -/
inductive CommitWrite where
  | committed (commit : CommitSummary)
  | missingContent (hashes : List String)
  deriving DecidableEq

/-- Makes a commit, unless some content it refers to is not complete. -/
def createCommit (c : Catalog) (draft : CommitDraft) : Except StoreError (CommitWrite × Catalog) := do
  let (commit, next) ← c.insertCommit draft.projectId draft.authorId draft.comment draft.revisions.length
    draft.createdAt
  match c.missingFiles (distinctHashes draft.revisions) with
  | [] =>
    let chunkCount (hash : String) := (c.completeCount? hash).getD 0
    return (.committed commit, next.insertRevisions commit chunkCount draft.revisions)
  | missing => return (.missingContent missing, c)

def commit? (c : Catalog) (projectId commitId : Int) : Option CommitSummary :=
  c.commits.find? fun k => k.projectId == projectId && k.commitId == commitId

def commitBySequence? (c : Catalog) (projectId sequence : Int) : Option CommitSummary :=
  c.commits.find? fun k => k.projectId == projectId && k.sequenceNumber == sequence

def newestFirst (a b : CommitSummary) : Bool := decide (b.sequenceNumber ≤ a.sequenceNumber)

/-- The commits of a project, newest first. -/
def log (c : Catalog) (projectId : Int) : List CommitSummary :=
  (c.commitsOf projectId).mergeSort newestFirst

def latestCommit? (c : Catalog) (projectId : Int) : Option CommitSummary := (c.log projectId).head?

/-- Some commits of a project, newest first. A negative limit is none, a negative offset is 0. -/
def listCommits (c : Catalog) (projectId offset limit : Int) : List CommitSummary :=
  let rest := (c.log projectId).drop offset.toNat
  if limit < 0 then rest else rest.take limit.toNat

def countCommits (c : Catalog) (projectId : Int) : Nat := (c.commitsOf projectId).length

def commitRevisions (c : Catalog) (commitId : Int) : List Revision :=
  c.revisions.filter fun r => r.commitId == commitId

/-! ## Snapshots -/

/-- The revision was made by a project's commit up to a boundary. -/
def isWithin (projectId boundary : Int) (r : Revision) : Bool :=
  r.projectId == projectId && decide (r.commitId ≤ boundary)

/-- The revision removes its path. -/
def Revision.isDelete (r : Revision) : Bool := r.kind == ChangeKind.delete.code

/-- The files of a project at a commit: of every path the latest revision, unless it is a deletion. -/
def stateAt (c : Catalog) (projectId boundary : Int) : List Revision :=
  let scope := c.revisions.filter (isWithin projectId boundary)
  scope.filter fun r =>
    !r.isDelete && scope.all fun s => s.path != r.path || decide (s.revisionId ≤ r.revisionId)

/-- The later of two revisions. -/
def later (best : Option Revision) (r : Revision) : Option Revision :=
  match best with
  | none => some r
  | some b => some (if b.revisionId ≤ r.revisionId then r else b)

/-- The file at one path of a project at a commit. -/
def fileAt? (c : Catalog) (projectId : Int) (path : String) (boundary : Int) : Option Revision :=
  ((c.revisions.filter fun r => isWithin projectId boundary r && r.path == path).foldl later none).filter
    fun r => !r.isDelete

/-! ## Restoring -/

def lastRevisionAt? (revisions : List Revision) (path : String) : Option Revision :=
  revisions.reverse.find? fun r => r.path == path

/-- The revision that one path needs to get from one state to another. -/
def restoreStep (current target : List Revision) (path : String) : Except StoreError (Option RevisionDraft) :=
  match lastRevisionAt? target path, lastRevisionAt? current path with
  | some wanted, some have' =>
    if have'.contentHash = wanted.contentHash ∧ have'.kind = wanted.kind then .ok none
    else wanted.changeKind.map fun kind => some ⟨path, wanted.contentHash, kind⟩
  | some wanted, none => wanted.changeKind.map fun kind => some ⟨path, wanted.contentHash, kind⟩
  | none, some have' => .ok (some ⟨path, have'.contentHash, .delete⟩)
  | none, none => .ok none

/-- The revisions that bring one state back to another, in the order of their paths. -/
def planRestore (current target : List Revision) : Except StoreError (List RevisionDraft) :=
  let paths := sortedDistinct ((current ++ target).map Revision.path)
  (paths.mapM (restoreStep current target)).map fun steps => steps.filterMap id

/-- The chunk count that the last revision with a content hash names. -/
def chunkCountIn (revisions : List Revision) (hash : String) : Int :=
  ((revisions.reverse.find? fun r => r.contentHash == hash).map Revision.chunkCount).getD 0

/-- Makes a commit that brings an earlier state of a project back. -/
def restoreCommit (c : Catalog) (projectId targetCommitId : Int) (authorId comment : String)
    (createdAt : DateTime) : Except StoreError ((CommitSummary × List Revision) × Catalog) := do
  match c.commit? projectId targetCommitId, c.latestCommit? projectId with
  | some _, some latest =>
    let current := c.stateAt projectId latest.commitId
    let target := c.stateAt projectId targetCommitId
    let planned ← planRestore current target
    let (commit, next) ← c.insertCommit projectId authorId comment planned.length createdAt
    let written := next.insertRevisions commit (chunkCountIn (current ++ target)) planned
    return ((commit, written.revisions.drop next.revisions.length), written)
  | _, _ => .error (.notFound s!"commit {targetCommitId} in project {projectId}")

end Depot.Catalog
