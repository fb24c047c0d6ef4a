import Depot.Objects.SignedUrl

/-!
# Requests to an object store

- `Request`: one call with its arguments, as data. What is uploaded in pieces is named by the number that
  `openUpload` answers.
- `Request.Reply`: what a call that succeeds answers.
-/

namespace Depot.Objects

open Time

/-- What is known of an object without its bytes. -/
structure ObjectMeta where
  size : Nat
  hasModificationTime : Bool
  contentType : Option String
  deriving DecidableEq

/-- Bytes that are read piece by piece: those that come, and the failure that breaks them off. -/
structure ByteStream where
  data : List UInt8
  fault : Option ObjectError
  deriving DecidableEq

inductive Request where
  | contains (key : String)
  | head (key : String)
  | get (key : String)
  | stream (key : String)
  | put (key : String) (data : List UInt8)
  | openUpload (key : String)
  | write (upload : Nat) (data : List UInt8)
  | finish (upload : Nat)
  | abort (upload : Nat)
  | delete (key : String)
  | presign (key : String) (ttl : Lifetime) (now : DateTime)
  | verify (key : String) (expires : Int) (signature : String) (now : DateTime)
  | healthCheck

/-- What a request answers when it succeeds; `finish` answers how many bytes were written. -/
@[reducible]
def Request.Reply : Request → Type
  | contains _ => Bool
  | head _ => ObjectMeta
  | get _ => List UInt8
  | stream _ => ByteStream
  | put _ _ => Unit
  | openUpload _ => Nat
  | write _ _ => Unit
  | finish _ => Nat
  | abort _ => Unit
  | delete _ => Unit
  | presign _ _ _ => SignedUrl
  | verify _ _ _ _ => Unit
  | healthCheck => Unit

end Depot.Objects
