import Depot.Config.Fault
import Depot.Json.Members

/-!
# Settings of the server and of its administrator

- `Server`: where the server listens and its limits; every setting has a default.
- `Admin`: the hash of the administrator's secret and the user it stands for.
-/

namespace Depot.Config

structure Server where
  bind : String
  /-- Most bytes of one uploaded block. -/
  maxBlockSize : Nat
  /-- Seconds for which a download URL is good. -/
  downloadUrlTtl : Nat
  /-- Commits on one page of a project's history. -/
  historyPageSize : Nat
  metricsEnabled : Bool
  deriving DecidableEq

namespace Server

def default : Server where
  bind := "127.0.0.1:8080"
  maxBlockSize := 16 * 1024 * 1024
  downloadUrlTtl := 48 * 60 * 60
  historyPageSize := 8
  metricsEnabled := true

/-- No URL may be good for longer. -/
def longestTtl : Nat := 7 * 24 * 60 * 60

/-- Accepts settings that can be served by. -/
def validate (s : Server) : Except Fault Unit :=
  if s.maxBlockSize = 0 then .error .noBlockSize
  else if s.downloadUrlTtl = 0 then .error .noTtl
  else if longestTtl < s.downloadUrlTtl then .error (.longTtl s.downloadUrlTtl)
  else if s.historyPageSize = 0 then .error .noPageSize
  else .ok ()

def toJson (s : Server) : Json :=
  .obj [("bind", .str s.bind), ("max_block_size", .ofNat s.maxBlockSize),
    ("download_url_ttl_secs", .ofNat s.downloadUrlTtl), ("history_page_size", .ofNat s.historyPageSize),
    ("metrics_enabled", .bool s.metricsEnabled)]

def ofJson? (json : Json) : Option Server := do
  let m ← Json.Members.of? ["bind", "max_block_size", "download_url_ttl_secs", "history_page_size",
    "metrics_enabled"] json
  some ⟨← m.defaulted? "bind" default.bind Json.str?,
    ← m.defaulted? "max_block_size" default.maxBlockSize (Json.word? 64),
    ← m.defaulted? "download_url_ttl_secs" default.downloadUrlTtl (Json.word? 64),
    ← m.defaulted? "history_page_size" default.historyPageSize (Json.word? 32),
    ← m.defaulted? "metrics_enabled" default.metricsEnabled Json.bool?⟩

end Server

structure Admin where
  /-- The SHA-256 hash of the secret in hexadecimal digits. -/
  tokenHash : String
  userId : String
  tokenDescription : Option String
  deriving DecidableEq

namespace Admin

def defaultUserId : String := "admin"

/-- Settings for trying the server out; the secret is `test-admin-token`. -/
def sample : Admin where
  tokenHash := "17d6bfe05d1b1fb7bc499f8e3f639c7b3eda4c40f321eef8887a0c04c89a99c5"
  userId := defaultUserId
  tokenDescription := some "Test admin token"

def toJson (a : Admin) : Json :=
  .obj [("token_hash", .str a.tokenHash), ("user_id", .str a.userId),
    ("token_description", .ofOption Json.str a.tokenDescription)]

def ofJson? (json : Json) : Option Admin := do
  let m ← Json.Members.of? ["token_hash", "user_id", "token_description"] json
  some ⟨← m.required? "token_hash" Json.str?, ← m.defaulted? "user_id" defaultUserId Json.str?,
    ← m.optional? "token_description" Json.str?⟩

end Admin

end Depot.Config
