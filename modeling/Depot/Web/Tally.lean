import Depot.Web.Reply
import Depot.Web.Resource

/-!
# Counts of what the server did

- `Tally`: how often what happened since the start.
- `Tally.note`: the counts after one more request.
- `Tally.exposition`: the lines that a monitoring system reads. Durations are not kept: a histogram shows
  only how many values it has.
-/

namespace Depot.Web

structure Tally where
  blocksUploaded : Nat
  blocksDeduplicated : Nat
  bytesUploaded : Nat
  bytesDeduplicated : Nat
  hashMismatches : Nat
  /-- By the code of the failure. -/
  uploadErrors : List (String × Nat)
  commitsCreated : Nat
  commitsNeedingBlocks : Nat
  restores : Nat
  downloadPlans : Nat
  /-- By method and status. -/
  requests : List ((String × String) × Nat)
  deriving DecidableEq, Repr

namespace Tally

def zero : Tally where
  blocksUploaded := 0
  blocksDeduplicated := 0
  bytesUploaded := 0
  bytesDeduplicated := 0
  hashMismatches := 0
  uploadErrors := []
  commitsCreated := 0
  commitsNeedingBlocks := 0
  restores := 0
  downloadPlans := 0
  requests := []

/-- The counts with one more of a kind. -/
def increment [BEq κ] (counts : List (κ × Nat)) (kind : κ) : List (κ × Nat) :=
  if counts.any fun c => c.1 == kind then counts.map fun c => if c.1 == kind then (c.1, c.2 + 1) else c
  else counts ++ [(kind, 1)]

def noteReply (t : Tally) : Reply → Tally
  | .uploaded .uploaded size =>
    { t with blocksUploaded := t.blocksUploaded + 1, bytesUploaded := t.bytesUploaded + size }
  | .uploaded .duplicateAccepted size =>
    { t with blocksDeduplicated := t.blocksDeduplicated + 1, bytesDeduplicated := t.bytesDeduplicated + size }
  | .committed _ _ => { t with commitsCreated := t.commitsCreated + 1 }
  | .needsBlocks _ => { t with commitsNeedingBlocks := t.commitsNeedingBlocks + 1 }
  | .restored _ => { t with restores := t.restores + 1 }
  | .download _ => { t with downloadPlans := t.downloadPlans + 1 }
  | _ => t

/-- An upload that the service refused. -/
def noteRefusedUpload (t : Tally) (e : Service.ServiceError) : Tally :=
  let t := { t with uploadErrors := increment t.uploadErrors e.code }
  match e with
  | .contentMismatch _ _ => { t with hashMismatches := t.hashMismatches + 1 }
  | _ => t

def noteResult (t : Tally) (resource : Option Resource) : Except Failure Reply → Tally
  | .ok reply => t.noteReply reply
  | .error (.service e) =>
    match resource with
    | some (.block _) => t.noteRefusedUpload e
    | _ => t
  | .error _ => t

/-- The counts after a request with a method for a resource ended with a status. -/
def note (t : Tally) (method : Method) (resource : Option Resource) (result : Except Failure Reply)
    (status : Nat) : Tally :=
  let t := t.noteResult resource result
  { t with requests := increment t.requests (method.name, toString status) }

/-! ## Exposition -/

/-- The lines of one group of values. -/
def family (name help kind : String) (samples : List String) : List String :=
  s!"# HELP {name} {help}" :: s!"# TYPE {name} {kind}" :: samples

/-- The lines of a group that is left out while it has no values. -/
def labelled (name help kind : String) (samples : List String) : List String :=
  if samples.isEmpty then [] else family name help kind samples

def counter (name help : String) (value : Nat) : List String :=
  family name help "counter" [s!"{name} {value}"]

/-- Labels in braces. -/
def labels (pairs : List (String × String)) : String :=
  "\x7b" ++ ",".intercalate (pairs.map fun (name, value) => s!"{name}=\"{value}\"") ++ "\x7d"

/-- A line with a value of a group. -/
def sample (name : String) (pairs : List (String × String)) (value : Nat) : String :=
  name ++ labels pairs ++ s!" {value}"

def errorSamples (t : Tally) : List String :=
  (t.uploadErrors.mergeSort fun a b => decide (a.1 ≤ b.1)).map fun (code, count) =>
    sample "hangar_upload_errors_total" [("error_type", code)] count

def requestSamples (t : Tally) : List String :=
  (t.requests.mergeSort fun a b => decide (a.1.1 < b.1.1 ∨ (a.1.1 = b.1.1 ∧ a.1.2 ≤ b.1.2))).map
    fun ((method, status), count) =>
      sample "hangar_http_request_duration_seconds_count" [("method", method), ("status", status)] count

def exposition (t : Tally) : List String :=
  counter "hangar_block_hash_mismatches_total" "Total number of block hash verification failures" t.hashMismatches ++
  family "hangar_block_upload_duration_seconds" "Time taken to upload a single block" "histogram"
    [s!"hangar_block_upload_duration_seconds_count {t.blocksUploaded + t.blocksDeduplicated}"] ++
  counter "hangar_blocks_deduplicated_total"
    "Total number of block uploads skipped because the block was already stored" t.blocksDeduplicated ++
  counter "hangar_blocks_uploaded_total" "Total number of blocks written to the object store" t.blocksUploaded ++
  counter "hangar_bytes_deduplicated_total" "Total bytes saved through deduplication" t.bytesDeduplicated ++
  counter "hangar_bytes_uploaded_total" "Total bytes uploaded (new blocks only)" t.bytesUploaded ++
  counter "hangar_commits_created_total" "Total number of commits created" t.commitsCreated ++
  counter "hangar_commits_needing_blocks_total"
    "Total number of proposed commits answered with missing content" t.commitsNeedingBlocks ++
  counter "hangar_download_plans_issued_total" "Total number of download plans issued" t.downloadPlans ++
  labelled "hangar_http_request_duration_seconds" "HTTP request latency by method and status" "histogram"
    t.requestSamples ++
  counter "hangar_restores_total" "Total number of project restores" t.restores ++
  labelled "hangar_upload_errors_total" "Total upload errors by error code" "counter" t.errorSamples

end Tally

end Depot.Web
