import Depot.Catalog.Error
import Depot.Content.Error
import Depot.Objects.Error

/-!
# Failures of the service

Every failure has a stable code and says whether to change the request, to try again later, or to give up.

- `ServiceError`: why an operation failed; `code`, `retry` and `message` tell it.
- `ofStore`, `ofObjects`, `ofContent`: what failures of the parts become.
-/

namespace Depot.Service

/-- What a caller should do about a failure. -/
inductive Retry where
  | fixInput
  | later
  | never
  deriving DecidableEq, Repr

def Retry.name : Retry → String
  | fixInput => "fix_input"
  | later => "later"
  | never => "never"

inductive ServiceError where
  | insufficientPermission (what : String)
  | malformedRequest (what : String)
  | contentNotFound (what : String)
  | contentMismatch (expected actual : String)
  | storageUnavailable (what : String)
  | conflict (what : String)
  | internal (what : String)
  /-- A time would fall on a day that the calendar does not have. -/
  | outOfCalendar
  deriving DecidableEq, Repr

namespace ServiceError

def message : ServiceError → String
  | insufficientPermission what => s!"insufficient permission: {what}"
  | malformedRequest what => s!"malformed request: {what}"
  | contentNotFound what => s!"not found: {what}"
  | contentMismatch expected actual => s!"content mismatch: declared {expected}, received {actual}"
  | storageUnavailable what => s!"storage unavailable: {what}"
  | conflict what => s!"conflict: {what}"
  | internal what => s!"internal error: {what}"
  | outOfCalendar => "internal error: a time is outside the calendar"

def code : ServiceError → String
  | insufficientPermission _ => "insufficient_permission"
  | malformedRequest _ => "malformed_request"
  | contentNotFound _ => "content_not_found"
  | contentMismatch _ _ => "content_mismatch"
  | storageUnavailable _ => "storage_unavailable"
  | conflict _ => "conflict"
  | internal _ | outOfCalendar => "internal_error"

def retry : ServiceError → Retry
  | malformedRequest _ | contentMismatch _ _ | conflict _ => .fixInput
  | storageUnavailable _ => .later
  | insufficientPermission _ | contentNotFound _ | internal _ | outOfCalendar => .never

def ofStore : Catalog.StoreError → ServiceError
  | .notFound what => contentNotFound what
  | .alreadyExists what => conflict s!"{what} already exists"
  | .constraint detail => malformedRequest detail
  | .database detail => storageUnavailable s!"database: {detail}"
  | .config detail | .internal detail => internal detail

def ofObjects (e : Objects.ObjectError) : ServiceError :=
  match e with
  | .notFound key => contentNotFound key
  | .invalidKey reason => malformedRequest s!"invalid key: {reason}"
  | .io _ | .s3 _ => storageUnavailable ("object store: " ++ e.message)
  | .outOfCalendar => outOfCalendar
  | .invalidSignature _ | .expired _ | .config _ => internal e.message

def ofContent : Content.Error → ServiceError
  | .hashMismatch expected actual => contentMismatch expected actual
  | e => malformedRequest e.message

end ServiceError

end Depot.Service
