import Depot.Change
import Depot.Time.Rfc3339

/-!
# Projects and their history

- `Project`: what is known of a project beside its files.
- `CommitRequest` and `CommitOutcome`: a commit that a client asks for, and what came of it.
- `CommitBoundary`: how a client names a commit.
- `CommitSummary`, `HistoryPage`: commits as they are listed.

Every type has its JSON form beside it.
-/

namespace Depot

open Content Time

/-- A time as it is written in JSON; years before 0 have no such form. -/
def Time.DateTime.toJson (t : DateTime) : Json :=
  match Rfc3339.render? t with
  | some text => .str text
  | none => .null

def Time.DateTime.ofJson? (json : Json) : Option DateTime := json.str?.bind Rfc3339.parse?

/-- The comment of the commit that every project begins with. -/
def initialCommitMessage : String := "Initial commit"

structure Project where
  projectId : Int
  teamId : String
  title : String
  createdBy : String
  createdAt : DateTime
  deriving DecidableEq

namespace Project

def toJson (p : Project) : Json :=
  .obj [("project_id", .int p.projectId), ("team_id", .str p.teamId), ("title", .str p.title),
    ("created_by", .str p.createdBy), ("created_at", p.createdAt.toJson)]

def ofJson? (json : Json) : Option Project := do
  let m ← Json.Members.of? ["project_id", "team_id", "title", "created_by", "created_at"] json
  some ⟨← m.required? "project_id" Json.int64?, ← m.required? "team_id" Json.str?,
    ← m.required? "title" Json.str?, ← m.required? "created_by" Json.str?,
    ← m.required? "created_at" DateTime.ofJson?⟩

end Project

/-- A commit that a client asks for. -/
structure CommitRequest where
  projectId : Int
  authorId : String
  message : String
  changes : List ProposedChange

namespace CommitRequest

def toJson (r : CommitRequest) : Json :=
  .obj [("project_id", .int r.projectId), ("author_id", .str r.authorId), ("message", .str r.message),
    ("changes", .ofList ProposedChange.toJson r.changes)]

def ofJson? (json : Json) : Option CommitRequest := do
  let m ← Json.Members.of? ["project_id", "author_id", "message", "changes"] json
  some ⟨← m.required? "project_id" Json.int64?, ← m.required? "author_id" Json.str?,
    ← m.required? "message" Json.str?, ← m.required? "changes" (Json.list? ProposedChange.ofJson?)⟩

end CommitRequest

/-- What came of a commit: it was made, or content it refers to has to be uploaded first. -/
inductive CommitOutcome where
  | committed (commitId sequenceNumber : Int)
  | needsBlocks (missing : List FileHash)
  deriving DecidableEq

namespace CommitOutcome

def commitId? : CommitOutcome → Option Int
  | committed id _ => some id
  | needsBlocks _ => none

def toJson : CommitOutcome → Json
  | committed id sequence =>
    .obj [("outcome", .str "committed"), ("commit_id", .int id), ("sequence_number", .int sequence)]
  | needsBlocks missing =>
    .obj [("outcome", .str "needs_blocks"), ("missing_hashes", .ofList FileHash.toJson missing)]

def ofJson? (json : Json) : Option CommitOutcome := do
  let (form, fields) ← json.tagged? "outcome"
  if form = "committed" then
    let m ← Json.Members.of? ["commit_id", "sequence_number"] fields
    some (committed (← m.required? "commit_id" Json.int64?) (← m.required? "sequence_number" Json.int64?))
  else if form = "needs_blocks" then
    let m ← Json.Members.of? ["missing_hashes"] fields
    some (needsBlocks (← m.required? "missing_hashes" (Json.list? FileHash.ofJson?)))
  else none

end CommitOutcome

/-- How a client names a commit of a project. -/
inductive CommitBoundary where
  | latest
  | id (commitId : Int)
  | sequence (number : Int)
  deriving DecidableEq, Repr, Inhabited

/-- The name as diagnostics show it. -/
def CommitBoundary.describe : CommitBoundary → String
  | latest => "Latest"
  | id commitId => s!"Id({commitId})"
  | sequence number => s!"Sequence({number})"

structure CommitSummary where
  commitId : Int
  projectId : Int
  sequenceNumber : Int
  authorId : String
  comment : String
  fileCount : Int
  createdAt : DateTime
  deriving DecidableEq

namespace CommitSummary

def toJson (c : CommitSummary) : Json :=
  .obj [("commit_id", .int c.commitId), ("project_id", .int c.projectId),
    ("sequence_number", .int c.sequenceNumber), ("author_id", .str c.authorId), ("comment", .str c.comment),
    ("file_count", .int c.fileCount), ("created_at", c.createdAt.toJson)]

def ofJson? (json : Json) : Option CommitSummary := do
  let m ← Json.Members.of? ["commit_id", "project_id", "sequence_number", "author_id", "comment", "file_count",
    "created_at"] json
  some ⟨← m.required? "commit_id" Json.int64?, ← m.required? "project_id" Json.int64?,
    ← m.required? "sequence_number" Json.int64?, ← m.required? "author_id" Json.str?,
    ← m.required? "comment" Json.str?, ← m.required? "file_count" Json.int64?,
    ← m.required? "created_at" DateTime.ofJson?⟩

end CommitSummary

/-- Some commits of a project, newest first, and how many there are in all. -/
structure HistoryPage where
  totalCount : Int
  offset : Int
  commits : List CommitSummary

namespace HistoryPage

def toJson (p : HistoryPage) : Json :=
  .obj [("total_count", .int p.totalCount), ("offset", .int p.offset),
    ("commits", .ofList CommitSummary.toJson p.commits)]

def ofJson? (json : Json) : Option HistoryPage := do
  let m ← Json.Members.of? ["total_count", "offset", "commits"] json
  some ⟨← m.required? "total_count" Json.int64?, ← m.required? "offset" Json.int64?,
    ← m.required? "commits" (Json.list? CommitSummary.ofJson?)⟩

end HistoryPage

end Depot
