import Depot.Catalog.Rows
import Depot.Catalog.Error
import Depot.Config.Stores

/-!
# Opening a catalog

`Catalog.ofConfig` is the empty catalog that settings describe. A catalog in a file needs a name that can be
one; a catalog on a database server needs a server, of which none is known here.
-/

namespace Depot.Catalog

/-- Whether a text can name the file of a catalog: it leads to a directory neither by its end nor as a whole,
and has no mark behind which options would stand. -/
def isFileName (path : String) : Bool :=
  let last := (path.toList.splitOn '/').getLast?.getD []
  last != [] && last != ['.'] && last != ['.', '.'] && !path.toList.contains '?'

def noServer : StoreError := .database "error communicating with database"

def ofConfig (config : Config.Metadata) : Except StoreError Catalog :=
  match config with
  | .sqlite path =>
    if isFileName path then .ok .empty else .error (.database "unable to open database file")
  | .postgres s =>
    if s.url.isSome ∨ (s.host.isSome ∧ s.database.isSome) then .error noServer
    else .error (.config "postgres config requires either 'url' or 'host' + 'database'")

end Depot.Catalog
