import Depot.History

/-!
# Uploads and downloads

- `UploadRequest`: one chunk of a file as a client announces it; `UploadRequest.validate` checks its
  position and its size.
- `DownloadPlan`: the blocks of a file with a URL for each.
-/

namespace Depot

open Content Time

/-- One chunk of a file as a client announces it. -/
structure UploadRequest where
  uploaderId : String
  fileHash : FileHash
  chunkIndex : Nat
  totalChunks : Nat
  blockHash : BlockHash
  size : Nat

namespace UploadRequest

/-- Accepts a position inside the file and a size within the limit. -/
def validate (r : UploadRequest) (maxBlockSize : Nat) : Except Error Unit :=
  if r.totalChunks = 0 then .error (.invalidChunk "total_chunks must be at least 1")
  else if r.totalChunks ≤ r.chunkIndex then
    .error (.invalidChunk s!"chunk_index {r.chunkIndex} out of range for {r.totalChunks} chunks")
  else if maxBlockSize < r.size then .error (.invalidBlockSize r.size maxBlockSize)
  else .ok ()

def toJson (r : UploadRequest) : Json :=
  .obj [("uploader_id", .str r.uploaderId), ("file_hash", r.fileHash.toJson), ("chunk_index", .ofNat r.chunkIndex),
    ("total_chunks", .ofNat r.totalChunks), ("block_hash", r.blockHash.toJson), ("size", .ofNat r.size)]

def ofJson? (json : Json) : Option UploadRequest := do
  let m ← Json.Members.of? ["uploader_id", "file_hash", "chunk_index", "total_chunks", "block_hash", "size"] json
  some ⟨← m.required? "uploader_id" Json.str?, ← m.required? "file_hash" FileHash.ofJson?,
    ← m.required? "chunk_index" (Json.word? 32), ← m.required? "total_chunks" (Json.word? 32),
    ← m.required? "block_hash" BlockHash.ofJson?, ← m.required? "size" (Json.word? 64)⟩

end UploadRequest

/-- What became of an uploaded chunk. -/
inductive UploadOutcome where
  | uploaded
  | duplicateAccepted
  deriving DecidableEq, Repr

namespace UploadOutcome

def name : UploadOutcome → String
  | uploaded => "uploaded"
  | duplicateAccepted => "duplicate_accepted"

def toJson (o : UploadOutcome) : Json := .str o.name

def ofJson? (json : Json) : Option UploadOutcome :=
  json.unitVariant? ([uploaded, duplicateAccepted].map fun o => (o.name, o))

end UploadOutcome

/-- One block of a file, with a URL that serves it for a limited time. -/
structure DownloadChunk where
  chunkIndex : Int
  blockHash : BlockHash
  size : Int
  url : String
  deriving DecidableEq

namespace DownloadChunk

def toJson (c : DownloadChunk) : Json :=
  .obj [("chunk_index", .int c.chunkIndex), ("block_hash", c.blockHash.toJson), ("size", .int c.size),
    ("url", .str c.url)]

def ofJson? (json : Json) : Option DownloadChunk := do
  let m ← Json.Members.of? ["chunk_index", "block_hash", "size", "url"] json
  some ⟨← m.required? "chunk_index" Json.int64?, ← m.required? "block_hash" BlockHash.ofJson?,
    ← m.required? "size" Json.int64?, ← m.required? "url" Json.str?⟩

end DownloadChunk

/-- All that a client needs to put a file of a commit together again. -/
structure DownloadPlan where
  contentHash : FileHash
  commitId : Int
  path : String
  /-- In the order of their indexes. -/
  chunks : List DownloadChunk
  expiresAt : DateTime

namespace DownloadPlan

def totalSize (p : DownloadPlan) : Int := p.chunks.foldl (fun total chunk => total + chunk.size) 0

def toJson (p : DownloadPlan) : Json :=
  .obj [("content_hash", p.contentHash.toJson), ("commit_id", .int p.commitId), ("path", .str p.path),
    ("chunks", .ofList DownloadChunk.toJson p.chunks), ("expires_at", p.expiresAt.toJson)]

def ofJson? (json : Json) : Option DownloadPlan := do
  let m ← Json.Members.of? ["content_hash", "commit_id", "path", "chunks", "expires_at"] json
  some ⟨← m.required? "content_hash" FileHash.ofJson?, ← m.required? "commit_id" Json.int64?,
    ← m.required? "path" Json.str?, ← m.required? "chunks" (Json.list? DownloadChunk.ofJson?),
    ← m.required? "expires_at" DateTime.ofJson?⟩

end DownloadPlan

end Depot
