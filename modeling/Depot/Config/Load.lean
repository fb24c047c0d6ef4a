import Depot.Config.Stores
import Depot.Config.Variables
import Depot.Toml.Parser

/-!
# Loading the configuration

- `Config.load`: the settings of a file, with those of environment variables over them.
-/

namespace Depot.Config

inductive LoadFault where
  /-- There is neither a file nor a variable. -/
  | absent
  | malformed
  | invalid (fault : Fault)
  deriving DecidableEq, Repr

def LoadFault.message : LoadFault → String
  | absent =>
    "\n".intercalate [
      "No configuration provided.",
      "",
      "Provide configuration via one of:",
      "  1. Config file: hangard --config /path/to/config.toml",
      "  2. Environment variables: HANGAR_SERVER__BIND=0.0.0.0:8080 " ++
        "HANGAR_ADMIN__TOKEN_HASH=sha256:YOUR_TOKEN_HASH_HERE hangard",
      "",
      "Set HANGAR_CONFIG to specify a default config file path."]
  | malformed => "failed to load configuration"
  | invalid fault => s!"invalid configuration: {fault.message}"

/-- Whether a variable alone is a configuration. -/
def isConfiguring (name : String) : Bool :=
  name.startsWith Variable.start && name != "HANGAR_CONFIG"

/-- The settings of the text of a file, if there is one, and of variables. -/
def load (file : Option String) (environment : List (String × String)) : Except LoadFault App := do
  if file.isNone && !environment.any fun v => isConfiguring v.1 then throw .absent
  let some document := Toml.parse? (file.getD "") | throw .malformed
  let some app := App.ofJson? (merge document (Variable.settings environment)) | throw .malformed
  match app.validate with
  | .ok () => return app
  | .error fault => throw (.invalid fault)

end Depot.Config
