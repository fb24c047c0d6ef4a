import Depot.Catalog.Error
import Depot.Snapshot
import Depot.Uuid

/-!
# Rows of the catalog

Projects and commits are kept as `Project` and `CommitSummary`. Hashes are kept as texts and levels and
kinds as numbers, as they were given.
-/

namespace Depot.Catalog

open Content Time

/-- A block that some object holds, or is about to hold. -/
structure StoredBlock where
  blockHash : String
  storageKey : String
  size : Int
  createdAt : DateTime
  deriving DecidableEq

/-- A block at one position of a file. -/
structure Chunk where
  fileHash : String
  index : Int
  blockHash : String
  blockSize : Int
  /-- Chunks of the whole file. -/
  count : Int
  createdAt : DateTime
  deriving DecidableEq

/-- A chunk that waits for the others of its file, for one uploader. -/
structure StagedChunk where
  uploader : String
  chunk : Chunk
  deriving DecidableEq

/-- One path's change in a commit. -/
structure Revision where
  revisionId : Int
  projectId : Int
  path : String
  commitId : Int
  contentHash : String
  kind : Int
  chunkCount : Int
  deriving DecidableEq

namespace Revision

def changeKind (r : Revision) : Except StoreError ChangeKind :=
  (ChangeKind.ofCode r.kind).mapError fun e => .internal s!"revision {r.revisionId}: {e.message}"

/-- The file that a path has by this revision. -/
def fileState (r : Revision) : Except StoreError FileState := do
  let kind ← r.changeKind
  let hash ← (FileHash.parse r.contentHash).mapError fun e =>
    StoreError.internal s!"revision {r.revisionId}: {e.message}"
  return ⟨r.path, hash, kind, r.commitId, r.revisionId, r.chunkCount⟩

end Revision

/-- A revision to be made. -/
structure RevisionDraft where
  path : String
  contentHash : String
  kind : ChangeKind
  deriving DecidableEq

/-- A commit to be made. -/
structure CommitDraft where
  projectId : Int
  authorId : String
  comment : String
  revisions : List RevisionDraft
  createdAt : DateTime

/-- A level that a user was granted on a project. -/
structure ProjectGrant where
  userId : String
  projectId : Int
  level : Int
  updatedAt : DateTime
  deriving DecidableEq

/-- A level that a user was granted on a team. -/
structure TeamGrant where
  userId : String
  teamId : String
  level : Int
  updatedAt : DateTime
  deriving DecidableEq

/-- A token by the hash of its secret. -/
structure Token where
  tokenId : Uuid
  userId : String
  tokenHash : String
  isAdmin : Bool
  expiresAt : Option DateTime
  revokedAt : Option DateTime
  createdAt : DateTime
  lastUsedAt : Option DateTime
  description : Option String
  deriving DecidableEq

namespace Token

/-- The token was not revoked, and its end, if it has one, lies ahead. -/
def isActive (t : Token) (now : DateTime) : Bool :=
  t.revokedAt.isNone && t.expiresAt.all fun e => decide (now.instant < e.instant)

end Token

end Depot.Catalog

namespace Depot

open Catalog

/-- All that is recorded of blocks, files, projects, grants and tokens. Rows stand in the order in which
they were made, and projects, commits and revisions are numbered from 1 in that order. -/
structure Catalog where
  blocks : List StoredBlock
  chunks : List Chunk
  staged : List StagedChunk
  projects : List Project
  commits : List CommitSummary
  revisions : List Revision
  projectGrants : List ProjectGrant
  teamGrants : List TeamGrant
  tokens : List Token
  /-- The row that names the administrator's token, and the name in it. -/
  marker : Option (Option String)

/-- Nothing is recorded; the row for the administrator's token is there and names none. -/
def Catalog.empty : Catalog where
  blocks := []
  chunks := []
  staged := []
  projects := []
  commits := []
  revisions := []
  projectGrants := []
  teamGrants := []
  tokens := []
  marker := some none

end Depot
