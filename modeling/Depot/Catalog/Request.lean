import Depot.Catalog.Grants
import Depot.Catalog.Tokens

/-!
# Requests to the catalog

- `Request`: one call with its arguments, as data.
- `Request.Reply`: what a call that succeeds answers.
- `answer`: carries a request out. A call that fails changes nothing, save for a full set of staged chunks
  that does not compose its file.
-/

namespace Depot.Catalog

open Content Time

inductive Request where
  | putBlock (block : StoredBlock)
  | getBlock (blockHash : String)
  | deleteBlock (blockHash : String)
  | registerChunk (uploader : String) (chunk : Chunk)
  | listChunks (fileHash : String)
  | countRegistered (fileHash : String)
  | countStaged (uploader fileHash : String)
  | isFileComplete (fileHash : String)
  | missingFiles (fileHashes : List String)
  | createProject (teamId title createdBy : String) (createdAt : DateTime)
  | getProject (projectId : Int)
  | listProjects (userId : String)
  | createCommit (draft : CommitDraft)
  | getCommit (projectId commitId : Int)
  | getCommitBySequence (projectId sequence : Int)
  | latestCommit (projectId : Int)
  | listCommits (projectId offset limit : Int)
  | countCommits (projectId : Int)
  | listCommitRevisions (commitId : Int)
  | stateAt (projectId boundary : Int)
  | fileAt (projectId : Int) (path : String) (boundary : Int)
  | restoreCommit (projectId targetCommitId : Int) (authorId comment : String) (createdAt : DateTime)
  | projectAccess (userId : String) (projectId : Int)
  | teamAccess (userId teamId : String)
  | canUpload (userId : String)
  | setProjectPermission (userId : String) (projectId : Int) (level : AccessLevel) (updatedAt : DateTime)
  | setTeamPermission (userId teamId : String) (level : AccessLevel) (updatedAt : DateTime)
  | createToken (token : Token)
  | getTokenByHash (tokenHash : String)
  | getToken (tokenId : Uuid)
  | touchToken (tokenId : Uuid) (usedAt : DateTime)
  | revokeToken (tokenId : Uuid) (revokedAt : DateTime)
  | listTokens (userId : Option String)
  | adminMarker
  | setAdminMarker (tokenId : Uuid)
  | migrate
  | healthCheck

/-- What a request answers when it succeeds. -/
@[reducible]
def Request.Reply : Request → Type
  | putBlock _ => InsertOutcome
  | getBlock _ => Option StoredBlock
  | deleteBlock _ => Bool
  | registerChunk _ _ => InsertOutcome
  | listChunks _ => List Chunk
  | countRegistered _ => Nat
  | countStaged _ _ => Nat
  | isFileComplete _ => Bool
  | missingFiles _ => List String
  | createProject _ _ _ _ => Project
  | getProject _ => Option Project
  | listProjects _ => List Project
  | createCommit _ => CommitWrite
  | getCommit _ _ => Option CommitSummary
  | getCommitBySequence _ _ => Option CommitSummary
  | latestCommit _ => Option CommitSummary
  | listCommits _ _ _ => List CommitSummary
  | countCommits _ => Nat
  | listCommitRevisions _ => List Revision
  | stateAt _ _ => List Revision
  | fileAt _ _ _ => Option Revision
  | restoreCommit _ _ _ _ _ => CommitSummary × List Revision
  | projectAccess _ _ => AccessLevel
  | teamAccess _ _ => AccessLevel
  | canUpload _ => Bool
  | setProjectPermission _ _ _ _ => Unit
  | setTeamPermission _ _ _ _ => Unit
  | createToken _ => Unit
  | getTokenByHash _ => Option Token
  | getToken _ => Option Token
  | touchToken _ _ => Unit
  | revokeToken _ _ => Bool
  | listTokens _ => List Token
  | adminMarker => Option Uuid
  | setAdminMarker _ => Unit
  | migrate => Unit
  | healthCheck => Unit

/-- The state after a call that changes nothing when it fails. -/
def commitOr (c : Catalog) : Except StoreError (α × Catalog) → Except StoreError α × Catalog
  | .ok (value, next) => (.ok value, next)
  | .error e => (.error e, c)

/-- Carries a request out. -/
def answer (c : Catalog) : (r : Request) → Except StoreError r.Reply × Catalog
  | .putBlock block =>
    let (outcome, next) := c.putBlock block
    (.ok outcome, next)
  | .getBlock blockHash => (.ok (c.block? blockHash), c)
  | .deleteBlock blockHash => c.commitOr (c.deleteBlock blockHash)
  | .registerChunk uploader chunk => c.registerChunk uploader chunk
  | .listChunks fileHash => (.ok (c.listChunks fileHash), c)
  | .countRegistered fileHash => (.ok (c.countRegistered fileHash), c)
  | .countStaged uploader fileHash => (.ok (c.countStaged uploader fileHash), c)
  | .isFileComplete fileHash => (.ok (c.isFileComplete fileHash), c)
  | .missingFiles fileHashes => (.ok (c.missingFiles fileHashes), c)
  | .createProject teamId title createdBy createdAt =>
    c.commitOr (c.createProject teamId title createdBy createdAt)
  | .getProject projectId => (.ok (c.project? projectId), c)
  | .listProjects userId => (.ok (c.listProjects userId), c)
  | .createCommit draft => c.commitOr (c.createCommit draft)
  | .getCommit projectId commitId => (.ok (c.commit? projectId commitId), c)
  | .getCommitBySequence projectId sequence => (.ok (c.commitBySequence? projectId sequence), c)
  | .latestCommit projectId => (.ok (c.latestCommit? projectId), c)
  | .listCommits projectId offset limit => (.ok (c.listCommits projectId offset limit), c)
  | .countCommits projectId => (.ok (c.countCommits projectId), c)
  | .listCommitRevisions commitId => (.ok (c.commitRevisions commitId), c)
  | .stateAt projectId boundary => (.ok (c.stateAt projectId boundary), c)
  | .fileAt projectId path boundary => (.ok (c.fileAt? projectId path boundary), c)
  | .restoreCommit projectId target authorId comment createdAt =>
    c.commitOr (c.restoreCommit projectId target authorId comment createdAt)
  | .projectAccess userId projectId => (.ok (c.projectAccess userId projectId), c)
  | .teamAccess userId teamId => (.ok (c.teamAccess userId teamId), c)
  | .canUpload userId => (.ok (c.canUpload userId), c)
  | .setProjectPermission userId projectId level updatedAt =>
    c.commitOr (c.setProjectPermission userId projectId level updatedAt)
  | .setTeamPermission userId teamId level updatedAt =>
    (.ok (), c.setTeamPermission userId teamId level updatedAt)
  | .createToken token => c.commitOr (c.createToken token)
  | .getTokenByHash tokenHash => (.ok (c.tokenByHash? tokenHash), c)
  | .getToken tokenId => (.ok (c.token? tokenId), c)
  | .touchToken tokenId usedAt => (.ok (), c.touchToken tokenId usedAt)
  | .revokeToken tokenId revokedAt =>
    let (revoked, next) := c.revokeToken tokenId revokedAt
    (.ok revoked, next)
  | .listTokens userId => (.ok (c.listTokens userId), c)
  | .adminMarker => (c.adminMarker, c)
  | .setAdminMarker tokenId => (.ok (), c.setAdminMarker tokenId)
  | .migrate => (.ok (), c.migrate)
  | .healthCheck => (.ok (), c)

end Depot.Catalog
