import Depot.Objects.BucketAddress
import Depot.Objects.Request

/-!
# Objects in a bucket

- `BucketService`: a service that keeps the objects of one bucket and answers requests about them.
- `BucketStore`: the objects of a bucket whose names begin with a prefix. What is written in pieces is held
  back and sent as one object in the end.
- `BucketStore.answer`: carries a request out.
-/

namespace Depot.Objects

inductive Method where
  | get
  | head
  | put
  | delete
  deriving DecidableEq, Repr

/-- A service with the objects of one bucket. -/
structure BucketService where
  /-- Whether requests reach it at all. -/
  isReachable : Bool
  bucket : String
  /-- A bucket that is there but not open to the caller. -/
  forbidden : String
  denied : List Method
  /-- Whether it breaks off the objects that it sends. -/
  truncates : Bool
  sendsModificationTime : Bool
  objects : List (String × List UInt8)

/-- What comes of a request about one object. -/
inductive BucketResponse where
  | silence
  | refused (status : Nat)
  | accepted (body : List UInt8)

namespace BucketService

/-- The status with which every request of a kind to a bucket is refused, if it is. -/
def refusal? (s : BucketService) (bucket : String) (m : Method) : Option Nat :=
  if bucket = s.forbidden then some 403
  else if bucket ≠ s.bucket then some 404
  else if m ∈ s.denied then some 403
  else none

/-- The response to a request about the object of a name. -/
def respond (s : BucketService) (bucket : String) (m : Method) (name : String) (body : List UInt8) :
    BucketResponse × BucketService :=
  if !s.isReachable then (.silence, s)
  else
    match s.refusal? bucket m with
    | some status => (.refused status, s)
    | none =>
      let others := s.objects.filter fun o => o.1 ≠ name
      match m with
      | .put => (.accepted [], { s with objects := (name, body) :: others })
      | .delete => (.accepted [], { s with objects := others })
      | .get | .head =>
        match s.objects.lookup name with
        | some data => (.accepted data, s)
        | none => (.refused 404, s)

end BucketService

/-- What is being written in pieces. -/
structure BufferedUpload where
  name : String
  written : List UInt8

structure BucketStore where
  bucket : String
  /-- Stands in front of every key, with a slash. -/
  keyPrefix : Option String
  endpoint : ServiceAddress
  /-- Whether the bucket is always named in the path of a URL. -/
  pathStyle : Bool
  service : BucketService
  uploads : List (Nat × BufferedUpload)
  /-- How many uploads there have been. -/
  opened : Nat

namespace BucketStore

def trimSlashes (s : String) : String :=
  String.ofList (((s.toList.dropWhile (· == '/')).reverse.dropWhile (· == '/')).reverse)

def ofSettings (bucket : String) (endpoint region keyPrefix : Option String) (pathStyle : Bool)
    (service : BucketService) : BucketStore where
  bucket := bucket
  keyPrefix := (keyPrefix.map trimSlashes).filter fun p => !p.isEmpty
  endpoint := (endpoint.map .parse).getD (.ofRegion (region.getD ServiceAddress.defaultRegion))
  pathStyle := pathStyle
  service := service
  uploads := []
  opened := 0

/-- The name of the object that a key stands for. -/
def objectName (s : BucketStore) (key : String) : String :=
  match s.keyPrefix with
  | some start => s!"{start}/{key}"
  | none => key

def unreachable : ObjectError := .s3 "dispatch failure"

/-- An object that is not there is told apart from all other refusals. -/
def failure (key : String) (status : Nat) : ObjectError :=
  if status = 404 then .notFound key else .s3 "service error"

/-- One request about the object of a name; failures name it as `key`. -/
def send (s : BucketStore) (m : Method) (name key : String) (body : List UInt8) :
    Except ObjectError (List UInt8) × BucketStore :=
  match s.service.respond s.bucket m name body with
  | (.silence, next) => (.error unreachable, { s with service := next })
  | (.refused status, next) => (.error (failure key status), { s with service := next })
  | (.accepted data, next) => (.ok data, { s with service := next })

def head (s : BucketStore) (key : String) : Except ObjectError ObjectMeta :=
  (s.send .head (s.objectName key) key []).1.map fun data =>
    ⟨data.length, s.service.sendsModificationTime, some "application/octet-stream"⟩

def contains (s : BucketStore) (key : String) : Except ObjectError Bool :=
  match s.head key with
  | .ok _ => .ok true
  | .error (.notFound _) => .ok false
  | .error e => .error e

/-- The bytes of an object as they come. -/
def stream (s : BucketStore) (key : String) : Except ObjectError ByteStream :=
  (s.send .get (s.objectName key) key []).1.map fun data =>
    ⟨data, if s.service.truncates then some (.io "connection closed early") else none⟩

/-- The bytes of an object, which have to be complete. -/
def get (s : BucketStore) (key : String) : Except ObjectError (List UInt8) := do
  let stream ← s.stream key
  if stream.fault.isSome then throw (.s3 "connection closed early")
  return stream.data

def put (s : BucketStore) (key : String) (data : List UInt8) : Except ObjectError Unit × BucketStore :=
  let (reply, next) := s.send .put (s.objectName key) key data
  (reply.map fun _ => (), next)

def openUpload (s : BucketStore) (key : String) : Except ObjectError Nat × BucketStore :=
  (.ok s.opened,
    { s with uploads := (s.opened, ⟨s.objectName key, []⟩) :: s.uploads, opened := s.opened + 1 })

def noUpload : ObjectError := .io "no such upload"

def forget (s : BucketStore) (upload : Nat) : BucketStore :=
  { s with uploads := s.uploads.filter fun u => u.1 ≠ upload }

def writeUpload (s : BucketStore) (upload : Nat) (data : List UInt8) : Except ObjectError Unit × BucketStore :=
  match s.uploads.lookup upload with
  | none => (.error noUpload, s)
  | some u =>
    (.ok (), { s with uploads := (upload, { u with written := u.written ++ data }) :: (s.forget upload).uploads })

/-- Failures name the whole object, with the prefix. -/
def finish (s : BucketStore) (upload : Nat) : Except ObjectError Nat × BucketStore :=
  match s.uploads.lookup upload with
  | none => (.error noUpload, s)
  | some u =>
    let (reply, next) := (s.forget upload).send .put u.name u.name u.written
    (reply.map fun _ => u.written.length, next)

def abort (s : BucketStore) (upload : Nat) : Except ObjectError Unit × BucketStore :=
  match s.uploads.lookup upload with
  | none => (.error noUpload, s)
  | some _ => (.ok (), s.forget upload)

/-- The service would accept the removal of an object that is not there, so that is asked first. -/
def delete (s : BucketStore) (key : String) : Except ObjectError Unit × BucketStore :=
  match s.contains key with
  | .error e => (.error e, s)
  | .ok false => (.error (.notFound key), s)
  | .ok true =>
    let (reply, next) := s.send .delete (s.objectName key) key []
    (reply.map fun _ => (), next)

/-- Most seconds for which a URL may be signed. -/
def maxLifetime : Nat := 7 * 24 * 60 * 60

/-- The bytes of a name that stand for themselves in a URL. -/
def isPlain (b : UInt8) : Bool := UrlSigner.isPlain b || b == 126

/-- Where the object of a key is fetched. -/
def address (s : BucketStore) (key : String) : String :=
  s!"{s.endpoint.ofBucket s.bucket s.pathStyle}/{Text.Percent.encode isPlain (s.objectName key)}"

def presign (s : BucketStore) (key : String) (ttl : Lifetime) (now : Time.DateTime) :
    Except ObjectError SignedUrl :=
  if maxLifetime < ttl.seconds ∨ (maxLifetime = ttl.seconds ∧ 0 < ttl.nano) then
    .error (.config s!"download url ttl {ttl.seconds}s is longer than s3 allows ({maxLifetime}s)")
  else
    (UrlSigner.expiry ttl now).map fun expiresAt =>
      ⟨s!"{s.address key}?X-Amz-Expires={ttl.seconds}", expiresAt⟩

/-- The service checks its URLs itself. -/
def verify (key : String) : Except ObjectError Unit :=
  .error (.invalidSignature s!"s3 does not serve presigned URLs: {key}")

/-- Asks for the bucket itself. -/
def healthCheck (s : BucketStore) : Except ObjectError Unit :=
  if !s.service.isReachable then .error unreachable
  else
    match s.service.refusal? s.bucket .head with
    | some status => .error (failure s.bucket status)
    | none => .ok ()

/-- Carries a request out. -/
def answer (s : BucketStore) : (r : Request) → Except ObjectError r.Reply × BucketStore
  | .contains key => (s.contains key, s)
  | .head key => (s.head key, s)
  | .get key => (s.get key, s)
  | .stream key => (s.stream key, s)
  | .put key data => s.put key data
  | .openUpload key => s.openUpload key
  | .write upload data => s.writeUpload upload data
  | .finish upload => s.finish upload
  | .abort upload => s.abort upload
  | .delete key => s.delete key
  | .presign key ttl now => (s.presign key ttl now, s)
  | .verify key _ _ _ => (verify key, s)
  | .healthCheck => (s.healthCheck, s)

end BucketStore

end Depot.Objects
