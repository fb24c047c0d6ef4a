import Depot.Config.Stores
import Depot.Objects.Bucket
import Depot.Objects.Files

/-!
# An object store of either kind

- `ObjectStore`: objects in a directory or in a bucket.
- `ObjectStore.ofConfig`: the store that settings describe.
-/

namespace Depot.Objects

inductive ObjectStore where
  | files (store : FileStore)
  | bucket (store : BucketStore)

namespace ObjectStore

def name : ObjectStore → String
  | files _ => "filesystem"
  | bucket _ => "s3"

/-- Carries a request out. -/
def answer : ObjectStore → (r : Request) → Except ObjectError r.Reply × ObjectStore
  | files store, r =>
    let (reply, next) := store.answer r
    (reply, files next)
  | bucket store, r =>
    let (reply, next) := store.answer r
    (reply, bucket next)

/-- The store that settings describe: a directory at `root` on the volume, which signs with `fresh` where no
key is given, or a bucket of the service. -/
def ofConfig (config : Config.Storage) (volume : Volume) (root : Path) (fresh : List UInt8)
    (service : BucketService) : Except ObjectError ObjectStore := do
  match config.validate with
  | .error fault => throw (.config fault.message)
  | .ok () => pure ()
  match config with
  | .filesystem s =>
    let secret := (s.urlSigningKey.map Text.utf8).getD fresh
    let store ← FileStore.create volume root (.ofBase secret s.publicBaseUrl)
    return files store
  | .s3 s =>
    return bucket (.ofSettings s.bucket s.endpoint s.region s.keyPrefix s.forcePathStyle service)

end ObjectStore

end Depot.Objects
