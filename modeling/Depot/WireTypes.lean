import Depot.Access
import Depot.Config.Stores
import Depot.Json.Wire
import Depot.Snapshot
import Depot.Transfer

/-!
# What goes over the wire

All types whose values are sent as JSON: hashes, levels and kinds, the requests and answers about projects,
uploads and downloads, and the sections of the configuration.
-/

namespace Depot

instance : Wire Content.Hash := ⟨Content.Hash.toJson, Content.Hash.ofJson?⟩
instance : Wire AccessLevel := ⟨AccessLevel.toJson, AccessLevel.ofJson?⟩
instance : Wire ChangeKind := ⟨ChangeKind.toJson, ChangeKind.ofJson?⟩
instance : Wire Project := ⟨Project.toJson, Project.ofJson?⟩
instance : Wire ProposedChange := ⟨ProposedChange.toJson, ProposedChange.ofJson?⟩
instance : Wire CommitRequest := ⟨CommitRequest.toJson, CommitRequest.ofJson?⟩
instance : Wire CommitOutcome := ⟨CommitOutcome.toJson, CommitOutcome.ofJson?⟩
instance : Wire CommitSummary := ⟨CommitSummary.toJson, CommitSummary.ofJson?⟩
instance : Wire HistoryPage := ⟨HistoryPage.toJson, HistoryPage.ofJson?⟩
instance : Wire FileState := ⟨FileState.toJson, FileState.ofJson?⟩
instance : Wire ProjectState := ⟨ProjectState.toJson, ProjectState.ofJson?⟩
instance : Wire StateDiff := ⟨StateDiff.toJson, StateDiff.ofJson?⟩
instance : Wire CommitDetail := ⟨CommitDetail.toJson, CommitDetail.ofJson?⟩
instance : Wire UploadRequest := ⟨UploadRequest.toJson, UploadRequest.ofJson?⟩
instance : Wire UploadOutcome := ⟨UploadOutcome.toJson, UploadOutcome.ofJson?⟩
instance : Wire DownloadPlan := ⟨DownloadPlan.toJson, DownloadPlan.ofJson?⟩
instance : Wire Config.Server := ⟨Config.Server.toJson, Config.Server.ofJson?⟩
instance : Wire Config.Storage := ⟨Config.Storage.toJson, Config.Storage.ofJson?⟩
instance : Wire Config.Metadata := ⟨Config.Metadata.toJson, Config.Metadata.ofJson?⟩
instance : Wire Config.Admin := ⟨Config.Admin.toJson, Config.Admin.ofJson?⟩
instance : Wire Config.App := ⟨Config.App.toJson, Config.App.ofJson?⟩

end Depot
