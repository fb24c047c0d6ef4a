import Depot.Json.Basic
import Depot.Service.Error

/-!
# Failures of requests

Every failure of a request has a status, a code and an advice on trying again. Those of the parts keep their
cause.

- `Failure`: why a request fails.
- `Failure.toJson`: the failure as a response tells it.
-/

namespace Depot.Web

open Service

inductive Failure where
  | unauthorized (why : String)
  | forbidden (why : String)
  | badRequest (why : String)
  | notFound (what : String)
  | internal (why : String)
  | service (cause : ServiceError)
  | objects (cause : Objects.ObjectError)
  | store (cause : Catalog.StoreError)
  | content (cause : Content.Error)
  deriving DecidableEq, Repr

namespace Failure

def message : Failure → String
  | unauthorized why => s!"unauthorized: {why}"
  | forbidden why => s!"forbidden: {why}"
  | badRequest why => s!"bad request: {why}"
  | notFound what => s!"not found: {what}"
  | internal why => s!"internal error: {why}"
  | service cause => cause.message
  | objects cause => s!"storage error: {cause.message}"
  | store cause => s!"metadata error: {cause.message}"
  | content cause => s!"core error: {cause.message}"

/-- The code of a failure of the object store; unlike an operation, a request may be at fault for its
signature. -/
def objectCode : Objects.ObjectError → String
  | .notFound _ => "content_not_found"
  | .invalidSignature _ | .expired _ => "insufficient_permission"
  | .invalidKey _ => "malformed_request"
  | .io _ | .s3 _ => "storage_unavailable"
  | .config _ | .outOfCalendar => "internal_error"

def storeCode : Catalog.StoreError → String
  | .notFound _ => "content_not_found"
  | .alreadyExists _ => "conflict"
  | .constraint _ => "malformed_request"
  | .database _ => "storage_unavailable"
  | .config _ | .internal _ => "internal_error"

def code : Failure → String
  | unauthorized _ => "unauthorized"
  | forbidden _ => "insufficient_permission"
  | badRequest _ | content _ => "malformed_request"
  | notFound _ => "content_not_found"
  | internal _ => "internal_error"
  | service cause => cause.code
  | objects cause => objectCode cause
  | store cause => storeCode cause

/-- The status that goes with a code. -/
def statusOf (code : String) : Nat :=
  if code = "unauthorized" then 401
  else if code = "insufficient_permission" then 403
  else if code = "malformed_request" ∨ code = "content_mismatch" then 400
  else if code = "content_not_found" then 404
  else if code = "conflict" then 409
  else if code = "storage_unavailable" then 503
  else 500

def status (f : Failure) : Nat := statusOf f.code

/-- An operation gives its own advice; other failures go by their status. -/
def retry (f : Failure) : Retry :=
  match f with
  | service cause => cause.retry
  | f =>
    if f.status = 400 ∨ f.status = 409 ∨ f.status = 401 then .fixInput
    else if f.status = 503 then .later
    else .never

def toJson (f : Failure) : Json :=
  .obj [("response", .str "error"),
    ("error", .obj [("code", .str f.code), ("message", .str f.message), ("retry", .str f.retry.name)])]

end Failure

end Depot.Web
