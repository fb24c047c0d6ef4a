import Depot.Service.Snapshots
import Depot.Transfer

/-!
# Downloads

`resolveDownload` finds the blocks of a file at a commit, in their order, and a URL for each.
-/

namespace Depot.Service

open Content Time Objects

/-- Whether chunks have the indexes 0, 1, 2, …. -/
def isContiguous (chunks : List Catalog.Chunk) : Bool :=
  chunks.map (·.index) == (List.range chunks.length).map Int.ofNat

/-- A chunk with its URL, and when that expires. -/
def presignChunk (settings : Settings) (now : DateTime) (chunk : Catalog.Chunk) :
    Op (DownloadChunk × DateTime) := do
  let blockHash ← lift .ofContent (BlockHash.parse chunk.blockHash)
  let signed ← askObjects (.presign blockHash.objectKey (.ofSeconds settings.urlLifetime) now)
  return (⟨chunk.index, blockHash, chunk.blockSize, signed.url⟩, signed.expiresAt)

/-- The earliest of some times; with none, the end of a lifetime that begins now. -/
def earliest (settings : Settings) (now : DateTime) : List DateTime → Except ServiceError DateTime
  | [] =>
    match now.add? settings.urlLifetime 0 with
    | some t => .ok t
    | none => .error .outOfCalendar
  | t :: rest => .ok (rest.foldl (fun a b => if b.instant < a.instant then b else a) t)

/-- The blocks of a path as of a boundary, each with a URL. Each URL is signed at a reading of the clock of its own, and
the plan expires with the first of them. -/
def resolveDownload (settings : Settings) (userId : String) (projectId : Int) (path : String)
    (boundary : CommitBoundary) (clock : Clock) : Op DownloadPlan := do
  requireAccess userId projectId .read
  lift .ofContent (validatePath path)
  let commit ← resolveBoundary projectId boundary
  let some revision ← askCatalog (.fileAt projectId path commit.commitId)
    | throw (.contentNotFound s!"{path} at commit {commit.commitId} of project {projectId}")
  let chunks ← askCatalog (.listChunks revision.contentHash)
  if (chunks.length : Int) ≠ revision.chunkCount ∨ !isContiguous chunks then
    throw (.internal
      s!"catalog for {revision.contentHash} has {chunks.length} of {revision.chunkCount} chunks")
  let signed ← chunks.zipIdx.mapM fun (chunk, i) => presignChunk settings (clock i) chunk
  let expiresAt ← lift id (earliest settings (clock signed.length) (signed.map (·.2)))
  let contentHash ← lift .ofContent (FileHash.parse revision.contentHash)
  return ⟨contentHash, revision.commitId, revision.path, signed.map (·.1), expiresAt⟩

end Depot.Service
