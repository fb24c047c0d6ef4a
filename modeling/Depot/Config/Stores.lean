import Depot.Config.Server
import Depot.Text.Utf8

/-!
# Settings of the stores, and all settings together

- `Storage`: blocks in a directory or in a bucket.
- `Metadata`: the catalog in a file or on a database server.
- `App`: all sections; only the administrator's has to be given.
-/

namespace Depot.Config

structure FilesystemSettings where
  path : String
  /-- The address under which this server is reached, in front of every download URL. -/
  publicBaseUrl : String
  urlSigningKey : Option String
  deriving DecidableEq

structure BucketSettings where
  bucket : String
  endpoint : Option String
  region : Option String
  keyPrefix : Option String
  accessKeyId : Option String
  secretAccessKey : Option String
  forcePathStyle : Bool
  deriving DecidableEq

inductive Storage where
  | filesystem (settings : FilesystemSettings)
  | s3 (settings : BucketSettings)
  deriving DecidableEq

namespace Storage

def defaultBaseUrl : String := "http://" ++ Server.default.bind

def default : Storage := .filesystem ⟨"./data/storage", defaultBaseUrl, none⟩

/-- Accepts a base URL of a web server, a signing key of 16 bytes, and credentials that come in a pair. -/
def validate : Storage → Except Fault Unit
  | filesystem s =>
    if !s.publicBaseUrl.startsWith "http://" && !s.publicBaseUrl.startsWith "https://" then
      .error (.noHttpUrl s.publicBaseUrl)
    else if s.urlSigningKey.any fun key => decide (key.utf8ByteSize < 16) then .error .shortSigningKey
    else .ok ()
  | s3 s => if s.accessKeyId.isSome != s.secretAccessKey.isSome then .error .halfCredentials else .ok ()

def toJson : Storage → Json
  | filesystem s =>
    .obj [("type", .str "filesystem"), ("path", .str s.path), ("public_base_url", .str s.publicBaseUrl),
      ("url_signing_key", .ofOption Json.str s.urlSigningKey)]
  | s3 s =>
    .obj [("type", .str "s3"), ("bucket", .str s.bucket), ("endpoint", .ofOption Json.str s.endpoint),
      ("region", .ofOption Json.str s.region), ("prefix", .ofOption Json.str s.keyPrefix),
      ("access_key_id", .ofOption Json.str s.accessKeyId),
      ("secret_access_key", .ofOption Json.str s.secretAccessKey), ("force_path_style", .bool s.forcePathStyle)]

def filesystemOfJson? (fields : Json) : Option FilesystemSettings := do
  let m ← Json.Members.of? ["path", "public_base_url", "url_signing_key"] fields
  some ⟨← m.required? "path" Json.str?, ← m.defaulted? "public_base_url" defaultBaseUrl Json.str?,
    ← m.optional? "url_signing_key" Json.str?⟩

def bucketOfJson? (fields : Json) : Option BucketSettings := do
  let m ← Json.Members.of? ["bucket", "endpoint", "region", "prefix", "access_key_id", "secret_access_key",
    "force_path_style"] fields
  some ⟨← m.required? "bucket" Json.str?, ← m.optional? "endpoint" Json.str?, ← m.optional? "region" Json.str?,
    ← m.optional? "prefix" Json.str?, ← m.optional? "access_key_id" Json.str?,
    ← m.optional? "secret_access_key" Json.str?, ← m.defaulted? "force_path_style" false Json.bool?⟩

def ofJson? (json : Json) : Option Storage := do
  let (form, fields) ← json.tagged? "type"
  if form = "filesystem" then (filesystemOfJson? fields).map .filesystem
  else if form = "s3" then (bucketOfJson? fields).map .s3
  else none

end Storage

/-- How far a connection to a database server is encrypted. -/
inductive SslMode where
  | disable
  | prefer
  | require
  deriving DecidableEq, Repr

namespace SslMode

def name : SslMode → String
  | disable => "disable"
  | prefer => "prefer"
  | require => "require"

def toJson (mode : SslMode) : Json := .str mode.name

/-- The object around a name may hold an empty object in place of `null`. -/
def ofJson? (json : Json) : Option SslMode :=
  let json : Json := match json with
    | .obj [(name, .obj [])] => .str name
    | json => json
  json.unitVariant? ([disable, prefer, require].map fun mode => (mode.name, mode))

end SslMode

structure DatabaseSettings where
  url : Option String
  host : Option String
  port : Option Nat
  username : Option String
  password : Option String
  database : Option String
  sslMode : Option SslMode
  maxConnections : Nat
  statementTimeout : Option Nat
  deriving DecidableEq

inductive Metadata where
  | sqlite (path : String)
  | postgres (settings : DatabaseSettings)
  deriving DecidableEq

namespace Metadata

def default : Metadata := .sqlite "./data/metadata.db"

/-- Accepts a database server that is named by a URL, or by a host and a database. -/
def validate : Metadata → Except Fault Unit
  | sqlite _ => .ok ()
  | postgres s =>
    if s.url.isSome then .ok ()
    else if s.host.isNone then .error .noDatabaseLocation
    else if s.database.isNone then .error .noDatabaseName
    else .ok ()

def toJson : Metadata → Json
  | sqlite path => .obj [("type", .str "sqlite"), ("path", .str path)]
  | postgres s =>
    .obj [("type", .str "postgres"), ("url", .ofOption Json.str s.url), ("host", .ofOption Json.str s.host),
      ("port", .ofOption Json.ofNat s.port), ("username", .ofOption Json.str s.username),
      ("password", .ofOption Json.str s.password), ("database", .ofOption Json.str s.database),
      ("ssl_mode", .ofOption SslMode.toJson s.sslMode), ("max_connections", .ofNat s.maxConnections),
      ("statement_timeout_ms", .ofOption Json.ofNat s.statementTimeout)]

def databaseOfJson? (fields : Json) : Option DatabaseSettings := do
  let m ← Json.Members.of? ["url", "host", "port", "username", "password", "database", "ssl_mode",
    "max_connections", "statement_timeout_ms"] fields
  some ⟨← m.optional? "url" Json.str?, ← m.optional? "host" Json.str?,
    ← m.defaulted? "port" (some 5432) (Json.nullable? (Json.word? 16)), ← m.optional? "username" Json.str?,
    ← m.optional? "password" Json.str?, ← m.optional? "database" Json.str?,
    ← m.optional? "ssl_mode" SslMode.ofJson?, ← m.defaulted? "max_connections" 10 (Json.word? 32),
    ← m.defaulted? "statement_timeout_ms" (some 30000) (Json.nullable? (Json.word? 64))⟩

def ofJson? (json : Json) : Option Metadata := do
  let (form, fields) ← json.tagged? "type"
  if form = "sqlite" then
    let m ← Json.Members.of? ["path"] fields
    (m.required? "path" Json.str?).map .sqlite
  else if form = "postgres" then (databaseOfJson? fields).map .postgres
  else none

end Metadata

structure App where
  server : Server
  storage : Storage
  metadata : Metadata
  admin : Admin
  deriving DecidableEq

namespace App

/-- Settings for trying the server out. -/
def sample : App := ⟨.default, .default, .default, .sample⟩

/-- Accepts settings all of whose sections are accepted. -/
def validate (a : App) : Except Fault Unit := do
  a.server.validate
  a.storage.validate
  a.metadata.validate

def toJson (a : App) : Json :=
  .obj [("server", a.server.toJson), ("storage", a.storage.toJson), ("metadata", a.metadata.toJson),
    ("admin", a.admin.toJson)]

def ofJson? (json : Json) : Option App := do
  let m ← Json.Members.of? ["server", "storage", "metadata", "admin"] json
  some ⟨← m.defaulted? "server" .default Server.ofJson?, ← m.defaulted? "storage" .default Storage.ofJson?,
    ← m.defaulted? "metadata" .default Metadata.ofJson?, ← m.required? "admin" Admin.ofJson?⟩

end App

end Depot.Config
