import Depot.AdminToken
import Depot.Catalog.Open
import Depot.CommandLine
import Depot.Config.Load
import Depot.SocketAddress
import Depot.Web.Server

/-!
# Starting the program

A run reads its arguments and its configuration, opens the object store and the catalog, sees to the
administrator's token, and listens. The first step that fails ends it.

- `Machine`: what a run finds, and what it leaves for the next one.
- `Ending`: how a run ends.
- `Machine.run`: a run up to the moment at which it listens.
-/

namespace Depot

open Objects Time

structure Machine where
  volume : Volume
  /-- The directory that paths begin in. -/
  directory : Path
  /-- The catalogs in files, by the places of the files. -/
  catalogs : List (Path × Catalog)
  /-- The service that buckets are at. -/
  buckets : BucketService
  /-- Whether an address can be listened at. -/
  isFree : SocketAddress → Bool

/-- How a run ends. -/
inductive Ending where
  | told (text : String)
  | misused (error : UsageError)
  | failed (message : String)
  | listening (server : Web.Server) (stores : Service.Stores) (address : SocketAddress)

/-- The exit status of a run that does not go on listening. -/
def Ending.exitStatus : Ending → Nat
  | told _ | listening _ _ _ => 0
  | failed _ => 1
  | misused _ => 2

namespace Machine

/-- Where a path that is written out leads to; two dots go back by one name. -/
def place (m : Machine) (text : String) : Location :=
  let parts := Key.parts text
  let start := if parts.head? = some "" then [] else m.directory
  let path := parts.foldl (fun path part =>
    if Key.isSkipped part then path else if part = ".." then path.dropLast else path ++ [.plain part]) start
  ⟨path, parts.getLast?.any Key.isSkipped⟩

/-- The text of the configuration file, if there is something at its path; a directory has none. -/
def configText? (m : Machine) (path : String) : Option (Option String) :=
  if path.isEmpty then none
  else
    match m.volume.stat true (m.place path) with
    | .ok (_, .file data) => some (Text.ofUtf8? data)
    | .ok _ => some (some "")
    | .error _ => none

/-- The configuration of a file and of variables. -/
def loadConfig (m : Machine) (path : String) (environment : List (String × String)) :
    Except Config.LoadFault Config.App :=
  match m.configText? path with
  | none => Config.load none environment
  | some (some text) => Config.load (some text) environment
  | some none => .error .malformed

/-! ## Steps -/

/-- Opens the object store of a configuration, and checks that it works. -/
def openObjects (m : Machine) (config : Config.Storage) (secret : List UInt8) :
    Except String ObjectStore × Machine :=
  let text := match config with
    | .filesystem s => s.path
    | .s3 _ => "."
  match ObjectStore.ofConfig config m.volume (m.place text).path secret m.buckets with
  | .error _ => (.error "failed to initialize storage", m)
  | .ok store =>
    let volume := match store with
      | .files s => s.volume
      | .bucket _ => m.volume
    match (store.answer .healthCheck).1 with
    | .ok () => if text.isEmpty then (.error "storage health check failed", m) else (.ok store, { m with volume })
    | .error _ => (.error "storage health check failed", { m with volume })

/-- The catalog in the file at a location, which is made if it is not there. The bytes of such a file are not
part of the volume, so a file with bytes is none. -/
def catalogAt? (m : Machine) (l : Location) : Option (Catalog × Path × Machine) :=
  match m.volume.stat true l with
  | .ok (p, .file data) => if data.isEmpty then some ((m.catalogs.lookup p).getD .empty, p, m) else none
  | .ok _ => none
  | .error _ =>
    match m.volume.write l.path [] with
    | .ok volume => some (.empty, l.path, { m with volume })
    | .error _ => none

/-- Opens the catalog of a configuration; the directories on the way to its file are made. -/
def openCatalog (m : Machine) (config : Config.Metadata) : Except String (Catalog × Path) × Machine :=
  let failure := "failed to initialize metadata store"
  match config with
  | .postgres _ => (.error failure, m)
  | .sqlite text =>
    let l := m.place text
    let (made, volume) := m.volume.makeDirectories l.path.dropLast
    let m := { m with volume }
    match made, Catalog.ofConfig config with
    | .ok (), .ok _ =>
      match m.catalogAt? l with
      | some (c, p, m) => (.ok (c, p), m)
      | none => (.error failure, m)
    | _, _ => (.error failure, m)

/-- The machine with the catalog of a file. -/
def keepCatalog (m : Machine) (p : Path) (c : Catalog) : Machine :=
  { m with catalogs := (p, c) :: m.catalogs.filter fun e => e.1 ≠ p }

/-- The address that a configuration names, if it can be listened at. -/
def bindAddress (m : Machine) (text : String) : Except String SocketAddress :=
  match SocketAddress.parse? text with
  | none => .error "invalid bind address"
  | some address => if m.isFree address then .ok address else .error s!"failed to bind to {address.text}"

/-- Starts the server of a configuration. -/
def serve (m : Machine) (config : Config.App) (now : DateTime) (freshId : Uuid) (secret : List UInt8) :
    Ending × Machine :=
  match m.openObjects config.storage secret with
  | (.error e, m) => (.failed e, m)
  | (.ok objects, m) =>
    match m.openCatalog config.metadata with
    | (.error e, m) => (.failed e, m)
    | (.ok (catalog, p), m) =>
      let task := AdminToken.ensure config.admin now freshId
      let (result, catalog) := task.run.run (fun r c => c.answer r) catalog
      let m := m.keepCatalog p catalog
      match result with
      | .error e => (.failed e.message, m)
      | .ok () =>
        match m.bindAddress config.server.bind with
        | .error e => (.failed e, m)
        | .ok address => (.listening (.ofConfig config.server) ⟨catalog, objects⟩ address, m)

/-- A run with arguments and environment variables; `secret` signs URLs where the configuration has no key. -/
def run (m : Machine) (arguments : List String) (environment : List (String × String)) (now : DateTime)
    (freshId : Uuid) (secret : List UInt8) : Ending × Machine :=
  match CommandLine.parse arguments with
  | .error e => (.misused e, m)
  | .ok .help => (.told CommandLine.helpText, m)
  | .ok .version => (.told CommandLine.versionText, m)
  | .ok (.serve given) =>
    match m.loadConfig (CommandLine.configPath given environment) environment with
    | .error fault => (.failed fault.message, m)
    | .ok config => m.serve config now freshId secret

end Machine

end Depot
