import Depot.Main
import Depot.Proofs.AdminToken.Interruption
import Depot.Proofs.Catalog.Edits
import Depot.Proofs.Catalog.Failure
import Depot.Proofs.Catalog.Leftovers
import Depot.Proofs.Catalog.Listing
import Depot.Proofs.Catalog.Replay
import Depot.Proofs.Catalog.Restore
import Depot.Proofs.Catalog.TokenOrder
import Depot.Proofs.Catalog.Touched
import Depot.Proofs.Content.HashTexts
import Depot.Proofs.Objects.BlockMap
import Depot.Proofs.Objects.Inside
import Depot.Proofs.Service.Attempts
import Depot.Proofs.Service.Authorization
import Depot.Proofs.Service.Deduplication
import Depot.Proofs.Service.Diff
import Depot.Proofs.Service.FailedUpload
import Depot.Proofs.Service.Faultless
import Depot.Proofs.Service.Framing
import Depot.Proofs.Service.HonestUpload
import Depot.Proofs.Service.Pages
import Depot.Proofs.Service.Past
import Depot.Proofs.Service.Paths
import Depot.Proofs.Service.RepeatedUpload
import Depot.Proofs.Service.Resolution
import Depot.Proofs.Text.ByteOrder
import Depot.Proofs.Web.Minting
import Depot.Proofs.Web.RoundTrip
import Depot.Proofs.WireTypes
import Depot.Web.TraceId
