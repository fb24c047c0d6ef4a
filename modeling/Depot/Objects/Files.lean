import Depot.Objects.Key
import Depot.Objects.Request
import Depot.Objects.Volume

/-!
# Objects in a directory

Every object is a file below a root directory. What is written goes to a scratch file beside its place
first and is moved there when it is whole, so an object is never seen half written. Links are followed as
long as they stay below the root.

- `FileStore.locate`: the place of a key.
- `FileStore.answer`: carries a request out.
-/

namespace Depot.Objects

/-- What is being written in pieces. -/
structure FileUpload where
  place : Location
  scratch : Path
  written : List UInt8

structure FileStore where
  volume : Volume
  root : Path
  signer : UrlSigner
  uploads : List (Nat × FileUpload)
  /-- How many scratch files there have been. -/
  serial : Nat

namespace FileStore

def io (fault : PathFault) : ObjectError := .io fault.message

/-- A missing file is a missing object, and all else a failure of the volume. -/
def absentOr (key : String) : PathFault → ObjectError
  | .missing => .notFound key
  | fault => io fault

/-- A store whose root is made if it is not there. -/
def create (volume : Volume) (root : Path) (signer : UrlSigner) : Except ObjectError FileStore :=
  match volume.makeDirectories root with
  | (.ok (), next) => .ok ⟨next, root, signer, [], 0⟩
  | (.error fault, _) => .error (io fault)

/-! ## Places -/

def locationOf (s : FileStore) (k : Key) : Location :=
  ⟨s.root ++ k.names.map .plain, k.asDirectory⟩

/-- A location and the directories on the way to it, nearest first. -/
def ancestry (l : Location) : List Location :=
  l :: (List.range l.path.length).reverse.map fun n => ⟨l.path.take n, false⟩

/-- The first location that something stands at. -/
def nearest? (v : Volume) : List Location → Except PathFault (Option (Location × Entry))
  | [] => .ok none
  | l :: rest =>
    match v.stat false l with
    | .ok (_, e) => .ok (some (l, e))
    | .error .missing => nearest? v rest
    | .error fault => .error fault

/-- Accepts a location that leads below `root`, links followed. -/
def checkInside (v : Volume) (root : Path) (key : String) (l : Location) (e : Entry) :
    Except ObjectError Unit :=
  match v.stat true l with
  | .ok (real, _) =>
    if root.isPrefixOf real then .ok ()
    else .error (.invalidKey s!"resolved path escapes storage root: {key}")
  | .error fault =>
    match e with
    | .link _ => .error (.invalidKey s!"symlink target missing or invalid: {key}")
    | _ => .error (io fault)

/-- The place of a key, if neither the key nor a link on the way leads out of the root. -/
def locate (s : FileStore) (key : String) : Except ObjectError Location := do
  let k ← Key.parse key
  let l := s.locationOf k
  if key.toList.contains (Char.ofNat 0) then throw (.io "file name contained an unexpected NUL byte")
  match s.volume.stat true ⟨s.root, false⟩ with
  | .error fault => throw (.io s!"failed to canonicalize root: {fault.message}")
  | .ok (root, _) =>
    match nearest? s.volume (ancestry l) with
    | .error fault => throw (io fault)
    | .ok none => return l
    | .ok (some (there, e)) =>
      checkInside s.volume root key there e
      return l

/-! ## Reading -/

def contains (s : FileStore) (key : String) : Except ObjectError Bool := do
  let l ← s.locate key
  match s.volume.stat true l with
  | .ok _ => return true
  | .error .missing => return false
  | .error fault => throw (io fault)

/-- What stands at the place of a key. -/
def find (s : FileStore) (key : String) : Except ObjectError Entry := do
  let l ← s.locate key
  match s.volume.stat true l with
  | .ok (_, e) => return e
  | .error fault => throw (absentOr key fault)

/-- How many bytes a directory is said to have. -/
def directorySize : Nat := 4096

def head (s : FileStore) (key : String) : Except ObjectError ObjectMeta :=
  (s.find key).map fun
    | .file data => ⟨data.length, true, none⟩
    | _ => ⟨directorySize, true, none⟩

def get (s : FileStore) (key : String) : Except ObjectError (List UInt8) := do
  match ← s.find key with
  | .file data => return data
  | _ => throw (io .isDirectory)

/-- Opening a directory succeeds; reading it does not. -/
def stream (s : FileStore) (key : String) : Except ObjectError ByteStream :=
  (s.find key).map fun
    | .file data => ⟨data, none⟩
    | _ => ⟨[], some (io .isDirectory)⟩

/-! ## Writing -/

/-- The scratch file for a place: beside it, and under a name that was never used. -/
def scratchFor (s : FileStore) (l : Location) : Path :=
  match l.path.getLast? with
  | some (.plain text) => l.path.dropLast ++ [.scratch text s.serial]
  | some (.scratch text _) => l.path.dropLast ++ [.scratch text s.serial]
  | none => [.scratch "" s.serial]

/-- Makes the directories on the way to a place and an empty scratch file beside it. -/
def prepare (s : FileStore) (l : Location) : Except PathFault Path × FileStore :=
  match s.volume.makeDirectories l.path.dropLast with
  | (.error fault, v) => (.error fault, { s with volume := v })
  | (.ok (), v) =>
    match v.write (s.scratchFor l) [] with
    | .error fault => (.error fault, { s with volume := v })
    | .ok next => (.ok (s.scratchFor l), { s with volume := next, serial := s.serial + 1 })

/-- Fills a scratch file and moves it to its place; one that cannot be moved stays behind. -/
def publish (s : FileStore) (scratch : Path) (l : Location) (data : List UInt8) :
    Except PathFault Unit × FileStore :=
  match s.volume.rename scratch l with
  | .error fault => (.error fault, s)
  | .ok next =>
    match next.resolve false l.path with
    | .error fault => (.error fault, { s with volume := next })
    | .ok place => (.ok (), { s with volume := next.set place (.file data) })

def put (s : FileStore) (key : String) (data : List UInt8) : Except ObjectError Unit × FileStore :=
  match s.locate key with
  | .error e => (.error e, s)
  | .ok l =>
    match s.prepare l with
    | (.error fault, next) => (.error (io fault), next)
    | (.ok scratch, next) =>
      let (done, last) := next.publish scratch l data
      (done.mapError io, last)

def openUpload (s : FileStore) (key : String) : Except ObjectError Nat × FileStore :=
  match s.locate key with
  | .error e => (.error e, s)
  | .ok l =>
    match s.prepare l with
    | (.error fault, next) => (.error (io fault), next)
    | (.ok scratch, next) => (.ok s.serial, { next with uploads := (s.serial, ⟨l, scratch, []⟩) :: next.uploads })

/-- The store without an upload. -/
def forget (s : FileStore) (upload : Nat) : FileStore :=
  { s with uploads := s.uploads.filter fun u => u.1 ≠ upload }

def noUpload : ObjectError := .io "no such upload"

def writeUpload (s : FileStore) (upload : Nat) (data : List UInt8) : Except ObjectError Unit × FileStore :=
  match s.uploads.lookup upload with
  | none => (.error noUpload, s)
  | some u =>
    (.ok (), { s with uploads := (upload, { u with written := u.written ++ data }) :: (s.forget upload).uploads })

def finish (s : FileStore) (upload : Nat) : Except ObjectError Nat × FileStore :=
  match s.uploads.lookup upload with
  | none => (.error noUpload, s)
  | some u =>
    let (done, next) := (s.forget upload).publish u.scratch u.place u.written
    ((done.mapError io).map fun _ => u.written.length, next)

def abort (s : FileStore) (upload : Nat) : Except ObjectError Unit × FileStore :=
  match s.uploads.lookup upload with
  | none => (.error noUpload, s)
  | some u =>
    match s.volume.unlink ⟨u.scratch, false⟩ with
    | .ok next => (.ok (), { s.forget upload with volume := next })
    | .error _ => (.ok (), s.forget upload)

def delete (s : FileStore) (key : String) : Except ObjectError Unit × FileStore :=
  match s.locate key with
  | .error e => (.error e, s)
  | .ok l =>
    match s.volume.unlink l with
    | .ok next => (.ok (), { s with volume := next })
    | .error fault => (.error (absentOr key fault), s)

/-! ## All requests -/

/-- The URL of a key, which need not stand for an object. -/
def presign (s : FileStore) (key : String) (ttl : Lifetime) (now : Time.DateTime) :
    Except ObjectError SignedUrl := do
  discard (s.locate key)
  s.signer.sign key ttl now

def healthCheck (s : FileStore) : Except ObjectError Unit :=
  match s.volume.stat true ⟨s.root, false⟩ with
  | .error fault => .error (.io s!"storage root not accessible: {fault.message}")
  | .ok (_, .directory) => .ok ()
  | .ok _ => .error (.io "storage root is not a directory")

/-- Carries a request out. -/
def answer (s : FileStore) : (r : Request) → Except ObjectError r.Reply × FileStore
  | .contains key => (s.contains key, s)
  | .head key => (s.head key, s)
  | .get key => (s.get key, s)
  | .stream key => (s.stream key, s)
  | .put key data => s.put key data
  | .openUpload key => s.openUpload key
  | .write upload data => s.writeUpload upload data
  | .finish upload => s.finish upload
  | .abort upload => s.abort upload
  | .delete key => s.delete key
  | .presign key ttl now => (s.presign key ttl now, s)
  | .verify key expires signature now => (s.signer.verify key expires signature now, s)
  | .healthCheck => (s.healthCheck, s)

end FileStore

end Depot.Objects
