/-!
# Failures of an object store

Why a store of objects refuses a call, and how that is worded.
-/

namespace Depot.Objects

inductive ObjectError where
  | notFound (key : String)
  | io (detail : String)
  | s3 (detail : String)
  | invalidKey (reason : String)
  | invalidSignature (what : String)
  | expired (key : String)
  | config (detail : String)
  /-- A URL would expire on a day that the calendar does not have. -/
  | outOfCalendar
  deriving DecidableEq, Repr

namespace ObjectError

def message : ObjectError → String
  | notFound key => s!"object not found: {key}"
  | io detail => s!"I/O error: {detail}"
  | s3 detail => s!"S3 error: {detail}"
  | invalidKey reason => s!"invalid key: {reason}"
  | invalidSignature what => s!"invalid signature: {what}"
  | expired key => s!"presigned URL expired: {key}"
  | config detail => s!"configuration error: {detail}"
  | outOfCalendar => "the expiry is outside the calendar"

/-- Whether the store itself fails, and not the call. -/
def isUnavailable : ObjectError → Bool
  | io _ | s3 _ => true
  | _ => false

end ObjectError

end Depot.Objects
