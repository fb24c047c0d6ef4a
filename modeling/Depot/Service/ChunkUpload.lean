import Depot.Service.Call
import Depot.Transfer

/-!
# Uploading a chunk

The block of a chunk is recorded before its bytes are written. If the record was there and so is the object,
the body is not read, and only the chunk is registered. Otherwise the body is written while it is hashed, and
the object is there only when length and hash are those that were declared.

- `uploadChunk`: one chunk of a file.
-/

namespace Depot.Service

open Content Time Objects

/-- A piece of a request's body, or the failure that ends it. -/
inductive Frame where
  | data (bytes : List UInt8)
  | fault (reason : String)
  deriving DecidableEq

/-- A size as the catalog records it: in 64 bits with a sign. -/
def recordedSize (size : Nat) : Int := Int.bmod size UInt64.size

/-- Accepts bytes of the declared number and hash. -/
def checkBody (request : UploadRequest) (received : Nat) (hash : Hash) : Except ServiceError Unit :=
  if received ≠ request.size then
    .error (.malformedRequest s!"chunk body has {received} bytes, declared {request.size}")
  else if hash ≠ request.blockHash.hash then
    .error (.contentMismatch request.blockHash.hex hash.hex)
  else .ok ()

/-- Writes the frames to an upload while it hashes them, and then checks them. -/
def copyHashed (request : UploadRequest) (upload : Nat) (hasher : Hasher) (received : Nat) :
    List Frame → Op Unit
  | [] => lift id (checkBody request received hasher.finish)
  | .fault reason :: _ => throw (.malformedRequest s!"failed to read chunk body: {reason}")
  | .data bytes :: rest =>
    if request.size < received + bytes.length then
      throw (.malformedRequest s!"chunk body exceeds declared size {request.size}")
    else do
      askObjects (.write upload bytes)
      copyHashed request upload (hasher.update bytes) (received + bytes.length) rest

/-- Writes the body as an object that is there only if all of it is right. -/
def storeVerified (request : UploadRequest) (body : List Frame) : Op Unit := do
  let upload ← askObjects (.openUpload request.blockHash.objectKey)
  let copied ← ExceptT.lift (copyHashed request upload .empty 0 body).run
  match copied with
  | .ok () => discard (askObjects (.finish upload))
  | .error e =>
    discard (attempt (.objects (.abort upload)))
    throw e

/-- Registers the chunk of a request in the catalog. -/
def linkChunk (request : UploadRequest) (now : DateTime) : Op Unit :=
  discard (askCatalog (.registerChunk request.uploaderId
    { fileHash := request.fileHash.hex, index := request.chunkIndex, blockHash := request.blockHash.hex
      blockSize := recordedSize request.size, count := request.totalChunks, createdAt := now }))

/-- Writes the block and registers its chunk; a record made by this call is removed again if the block
cannot be written. -/
def uploadNew (request : UploadRequest) (recorded : InsertOutcome) (body : List Frame) (now : DateTime) :
    Op UploadOutcome := do
  match ← ExceptT.lift (storeVerified request body).run with
  | .ok () =>
    linkChunk request now
    return .uploaded
  | .error e =>
    if recorded.isInserted then discard (attempt (.catalog (.deleteBlock request.blockHash.hex)))
    throw e

/-- Stores one chunk of a file and registers it in the catalog. -/
def uploadChunk (settings : Settings) (request : UploadRequest) (body : List Frame) (now : DateTime) :
    Op UploadOutcome := do
  lift .ofContent (request.validate settings.maxBlockSize)
  if !(← askCatalog (.canUpload request.uploaderId)) then
    throw (.insufficientPermission "write access to a project or team required to upload")
  let recorded ← askCatalog (.putBlock
    { blockHash := request.blockHash.hex, storageKey := request.blockHash.objectKey
      size := recordedSize request.size, createdAt := now })
  if recorded.isInserted then uploadNew request recorded body now
  else
    let some existing ← askCatalog (.getBlock request.blockHash.hex)
      | throw (.internal s!"block {request.blockHash.hex} vanished")
    if existing.size ≠ recordedSize request.size then
      throw (.malformedRequest
        s!"declared size {request.size} does not match stored block size {existing.size}")
    if ← askObjects (.contains request.blockHash.objectKey) then
      linkChunk request now
      return .duplicateAccepted
    else uploadNew request recorded body now

end Depot.Service
