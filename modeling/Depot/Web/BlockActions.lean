import Depot.Service.ChunkUpload
import Depot.Web.Caller
import Depot.Web.Form
import Depot.Web.Reply
import Depot.Web.Resource

/-!
# Requests about blocks

- `Action.uploadBlock`: a block as one chunk of a file. The header `content-length` has to tell its size.
- `Action.getBlob`: an object behind a signed URL, for which no token is needed.
-/

namespace Depot.Web.Action

open Service Time

/-- The size that a request announces. -/
def announcedSize (r : Request) : Except Failure Nat :=
  match (r.header? "content-length").bind (Text.Decimal.word? 64) with
  | some size => .ok size
  | none => .error (.badRequest "content-length header required")

/-- A hash in a path or a query. -/
def readHash (what : String) : Except Content.Error α → Except Failure α
  | .ok hash => .ok hash
  | .error e => .error (.badRequest s!"invalid {what} hash: {e.message}")

def uploadBlock (settings : Settings) (caller? : Option Caller) (now : DateTime) (r : Request) (hash : String) :
    Action Reply := do
  let blockText ← ofExcept (Parameter.text hash)
  let form := Form.parse r.query
  let fileText ← ofExcept (form.required "file_hash" some)
  let chunkIndex ← ofExcept (form.required "chunk_index" (Text.Decimal.word? 32))
  let totalChunks ← ofExcept (form.required "total_chunks" (Text.Decimal.word? 32))
  let caller ← ofExcept (requireCaller caller?)
  let blockHash ← ofExcept (readHash "block" (Content.BlockHash.parse blockText))
  let fileHash ← ofExcept (readHash "file" (Content.FileHash.parse fileText))
  let size ← ofExcept (announcedSize r)
  let request : UploadRequest := ⟨caller.userId, fileHash, chunkIndex, totalChunks, blockHash, size⟩
  return .uploaded (← operation (Service.uploadChunk settings request r.body now)) size

def getBlob (now : DateTime) (r : Request) (key : String) : Action Reply := do
  let key ← ofExcept (Parameter.text key)
  let form := Form.parse r.query
  let expires ← ofExcept (form.required "expires" Text.Decimal.int64?)
  let signature ← ofExcept (form.required "signature" some)
  objects (.verify key expires signature now)
  let known ← objects (.head key)
  return .blob known.size (← objects (.stream key))

end Depot.Web.Action
