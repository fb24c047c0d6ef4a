import Depot.Catalog.Rows

/-!
# Listings of the catalog

- `toJson` of the rows that have no form elsewhere.
- `Catalog.listing`: all rows of all tables but the tokens, without the times, each table in the order of its
  key.
-/

namespace Depot

open Catalog

namespace Catalog

def StoredBlock.toJson (b : StoredBlock) : Json :=
  .obj [("block_hash", .str b.blockHash), ("storage_key", .str b.storageKey), ("size", .int b.size),
    ("created_at", b.createdAt.toJson)]

def Chunk.toJson (k : Chunk) : Json :=
  .obj [("file_hash", .str k.fileHash), ("chunk_index", .int k.index), ("block_hash", .str k.blockHash),
    ("block_size", .int k.blockSize), ("chunk_count", .int k.count), ("created_at", k.createdAt.toJson)]

def Revision.toJson (r : Revision) : Json :=
  .obj [("revision_id", .int r.revisionId), ("project_id", .int r.projectId), ("path", .str r.path),
    ("commit_id", .int r.commitId), ("hash", .str r.contentHash), ("kind", .int r.kind),
    ("chunk_count", .int r.chunkCount)]

def RevisionDraft.toJson (d : RevisionDraft) : Json :=
  .obj [("path", .str d.path), ("hash", .str d.contentHash), ("kind", d.kind.toJson)]

def Token.toJson (t : Token) : Json :=
  .obj [("token_id", .str t.tokenId.text), ("user_id", .str t.userId), ("token_hash", .str t.tokenHash),
    ("is_admin", .bool t.isAdmin), ("expires_at", .ofOption (·.toJson) t.expiresAt),
    ("revoked_at", .ofOption (·.toJson) t.revokedAt), ("created_at", t.createdAt.toJson),
    ("last_used_at", .ofOption (·.toJson) t.lastUsedAt), ("description", .ofOption Json.str t.description)]

/-- The order of two values of a column. -/
def compareCells : Json → Json → Ordering
  | .int a, .int b => compare a b
  | .str a, .str b => compare a b
  | _, _ => .eq

/-- Whether a row stands before another, first column first. -/
def rowLe : List Json → List Json → Bool
  | a :: as, b :: bs =>
    match compareCells a b with
    | .lt => true
    | .gt => false
    | .eq => rowLe as bs
  | _, _ => true

def table (cells : α → List Json) (rows : List α) : Json :=
  .arr (((rows.map cells).mergeSort rowLe).map .arr)

end Catalog

/-- All rows but those of the tokens, without times, each table in the order of its key. -/
def Catalog.listing (c : Catalog) : Json :=
  .obj [
    ("blocks", table (fun b => [.str b.blockHash, .str b.storageKey, .int b.size]) c.blocks),
    ("chunks", table (fun k => [.str k.fileHash, .int k.index, .str k.blockHash, .int k.blockSize, .int k.count])
      c.chunks),
    ("pending", table (fun s => [.str s.uploader, .str s.chunk.fileHash, .int s.chunk.index,
      .str s.chunk.blockHash, .int s.chunk.blockSize, .int s.chunk.count]) c.staged),
    ("projects", table (fun p => [.int p.projectId, .str p.teamId, .str p.title, .str p.createdBy]) c.projects),
    ("commits", table (fun k => [.int k.commitId, .int k.projectId, .str k.authorId, .str k.comment,
      .int k.fileCount, .int k.sequenceNumber]) c.commits),
    ("revisions", table (fun r => [.int r.revisionId, .int r.projectId, .str r.path, .int r.commitId,
      .str r.contentHash, .int r.kind, .int r.chunkCount]) c.revisions),
    ("project_permissions", table (fun g => [.str g.userId, .int g.projectId, .int g.level]) c.projectGrants),
    ("team_permissions", table (fun g => [.str g.userId, .str g.teamId, .int g.level]) c.teamGrants)]

end Depot
