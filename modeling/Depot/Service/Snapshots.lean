import Depot.Service.ProjectLog

/-!
# Projects at a commit

- `stateAt`, `currentState`: the files that are live.
- `diff`: what differs between two commits.
- `restore`: brings an earlier state back as a new commit.
-/

namespace Depot.Service

open Time

/-- The live files of a project as of a boundary; who asks has been checked. -/
def resolveState (projectId : Int) (boundary : CommitBoundary) : Op ProjectState := do
  let commit ← resolveBoundary projectId boundary
  let revisions ← askCatalog (.stateAt projectId commit.commitId)
  return ⟨projectId, commit.commitId, commit.sequenceNumber, ← filesOf revisions⟩

def stateAt (userId : String) (projectId : Int) (boundary : CommitBoundary) : Op ProjectState := do
  requireAccess userId projectId .read
  resolveState projectId boundary

def currentState (userId : String) (projectId : Int) : Op ProjectState :=
  stateAt userId projectId .latest

def diff (userId : String) (projectId : Int) (old new : CommitBoundary) : Op StateDiff := do
  requireAccess userId projectId .read
  let before ← resolveState projectId old
  let after ← resolveState projectId new
  return compareStates before after

/-- Makes one commit that brings back the state at an earlier one; only paths that differ are written. Each attempt is
dated by a reading of the clock of its own. -/
def restore (userId : String) (projectId commitId : Int) (clock : Clock) : Op CommitSummary := do
  requireAccess userId projectId .manage
  let target ← resolveBoundary projectId (.id commitId)
  let comment := s!"Restore to commit #{target.sequenceNumber}"
  let ⟨_, commit, _⟩ ←
    persist (fun i => .restoreCommit projectId target.commitId userId comment (clock i)) 0 (maxCommitAttempts - 1)
  return commit

end Depot.Service
