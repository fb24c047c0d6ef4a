import Depot.Text.Quoted

/-!
# What can be wrong with a configuration

The settings that are well-formed and still refused, and their wording.
-/

namespace Depot.Config

inductive Fault where
  | noBlockSize
  | noTtl
  | longTtl (seconds : Nat)
  | noPageSize
  | noHttpUrl (given : String)
  | shortSigningKey
  | halfCredentials
  | noDatabaseLocation
  | noDatabaseName
  deriving DecidableEq, Repr

def Fault.message : Fault → String
  | noBlockSize => "server.max_block_size must be greater than 0"
  | noTtl => "server.download_url_ttl_secs must be greater than 0"
  | longTtl seconds => s!"server.download_url_ttl_secs ({seconds}) exceeds the 7 day maximum"
  | noPageSize => "server.history_page_size must be greater than 0"
  | noHttpUrl given => s!"filesystem public_base_url must be an http(s) URL, got {Text.quoted given}"
  | shortSigningKey => "filesystem url_signing_key must be at least 16 bytes"
  | halfCredentials => "s3 config requires both access_key_id and secret_access_key when either is set"
  | noDatabaseLocation => "postgres config requires either 'url' or 'host' + 'database'"
  | noDatabaseName => "postgres config requires 'database' when using individual fields"

end Depot.Config
