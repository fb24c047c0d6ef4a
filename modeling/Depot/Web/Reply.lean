import Depot.Snapshot
import Depot.Web.Failure
import Depot.Web.Message

/-!
# Replies

What a request that succeeds is answered, before it is put into the form of a response.

- `Reply`: the answers there are.
- `Reply.response`: status and body of an answer.
- `respondTo`: the response of a request that succeeds or fails.
-/

namespace Depot.Web

open Catalog Time

/-- The version that the health of the server is told with. -/
def version : String := "0.1.0"

inductive Reply where
  | healthy
  | projectMade (project : Project)
  | projects (projects : List Project)
  | committed (commitId sequence : Int)
  /-- The commit needs content that has not been uploaded. -/
  | needsBlocks (hashes : List Content.FileHash)
  | history (page : HistoryPage)
  | commit (detail : CommitDetail)
  | state (state : ProjectState)
  | diff (diff : StateDiff)
  | restored (commit : CommitSummary)
  | download (plan : DownloadPlan)
  | uploaded (outcome : UploadOutcome) (size : Nat)
  | blob (size : Nat) (bytes : Objects.ByteStream)
  /-- The only reply that tells the secret of a token. -/
  | tokenMade (tokenId : Uuid) (secret : String) (expiresAt : Option DateTime)
  | tokens (tokens : List Token)
  | done
  | metrics (lines : List String)
  | noSuchResource
  | noSuchMethod

namespace Reply

/-- What listings tell of a token: not its hash. -/
def tokenInfo (t : Token) : Json :=
  .obj [("token_id", .str t.tokenId.text), ("user_id", .str t.userId), ("is_admin", .bool t.isAdmin),
    ("expires_at", .ofOption DateTime.toJson t.expiresAt), ("revoked_at", .ofOption DateTime.toJson t.revokedAt),
    ("created_at", t.createdAt.toJson), ("last_used_at", .ofOption DateTime.toJson t.lastUsedAt),
    ("description", .ofOption Json.str t.description)]

/-- A download plan with the size of the whole file. -/
def downloadInfo (p : DownloadPlan) : Json :=
  .obj [("path", .str p.path), ("content_hash", p.contentHash.toJson), ("commit_id", .int p.commitId),
    ("total_size", .int p.totalSize), ("chunks", .ofList DownloadChunk.toJson p.chunks),
    ("expires_at", p.expiresAt.toJson)]

/-- A response that tells of success. -/
def success (status : Nat) (body : Json) : Response :=
  .ofJson status (.obj [("response", .str "success"), ("body", body)])

def response : Reply → Response
  | healthy => success 200 (.obj [("status", .str "ok"), ("version", .str version)])
  | projectMade p => success 201 p.toJson
  | projects ps => success 200 (.ofList Project.toJson ps)
  | committed commitId sequence =>
    success 201 (.obj [("commit_id", .int commitId), ("sequence_number", .int sequence)])
  | needsBlocks hashes =>
    .ofJson 200 (.obj [("response", .str "needs_blocks"),
      ("body", .obj [("missing_hashes", .ofList Content.FileHash.toJson hashes)])])
  | history page => success 200 page.toJson
  | commit detail => success 200 detail.toJson
  | state s => success 200 s.toJson
  | diff d => success 200 d.toJson
  | restored c => success 201 c.toJson
  | download plan => success 200 (downloadInfo plan)
  | uploaded outcome _ =>
    success (if outcome = .uploaded then 201 else 200) (.obj [("outcome", outcome.toJson)])
  | blob size bytes => ⟨200, some "application/octet-stream", some size, [], .stream bytes⟩
  | tokenMade tokenId secret expiresAt =>
    success 201 (.obj [("token_id", .str tokenId.text), ("token_secret", .str secret),
      ("expires_at", .ofOption DateTime.toJson expiresAt)])
  | tokens ts => success 200 (.ofList tokenInfo ts)
  | done => .bare 204
  | metrics lines => ⟨200, some "text/plain; version=0.0.4; charset=utf-8", none, [], .lines lines⟩
  | noSuchResource => .bare 404
  | noSuchMethod => .bare 405

end Reply

def respondTo : Except Failure Reply → Response
  | .ok reply => reply.response
  | .error failure => .ofJson failure.status failure.toJson

end Depot.Web
