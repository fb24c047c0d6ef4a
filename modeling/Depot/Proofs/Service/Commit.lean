import Depot.Proofs.Catalog.Snapshot
import Depot.Proofs.Content.Spelling
import Depot.Proofs.Service.Run
import Depot.Service.ProjectLog

/-!
# Commits

A commit either names all content that is not complete and leaves everything as it was, or it makes one commit
with a revision for each change. What it named as missing can be uploaded by anyone, and then the same request
is committed, because complete content stays complete.
-/

namespace Depot.Service

open Content Time

variable {s : Stores}

/-! ### Checks -/

theorem perform_requireAccess (userId : String) (projectId : Int) (required : AccessLevel) (s : Stores) :
    perform (requireAccess userId projectId required) s =
      (if required ≤ s.catalog.projectAccess userId projectId then .ok ()
        else .error (.insufficientPermission s!"{required.name} access to project {projectId} required"), s) := by
  rw [requireAccess, perform_bind_ok (perform_askCatalog _ s)]
  change perform (if ¬required ≤ s.catalog.projectAccess userId projectId then _ else _) s = _
  by_cases h : required ≤ s.catalog.projectAccess userId projectId
  · rw [if_neg (not_not.mpr h), if_pos h]
    rfl
  · rw [if_pos h, if_neg h]
    rfl

theorem perform_requireAccess_ok {userId : String} {required : AccessLevel}
    (h : required ≤ s.catalog.projectAccess userId projectId) :
    perform (requireAccess userId projectId required) s = (.ok (), s) := by
  rw [perform_requireAccess, if_pos h]

theorem perform_persist {r : Nat → Catalog.Request} {number : Nat} {reply : (r number).Reply} {next : Catalog}
    (h : s.catalog.answer (r number) = (.ok reply, next)) (more : Nat) :
    perform (persist r number more) s = (.ok ⟨number, reply⟩, { s with catalog := next }) := by
  cases more with
  | zero =>
    rw [persist, perform_bind_ok (perform_askCatalog_ok h)]
    rfl
  | succ more =>
    rw [persist, perform_bind_ok (perform_attempt _ s)]
    simp only [Stores.answer, h]
    rfl

theorem validateChanges_eq_ok {seen : List String} {changes : List ProposedChange}
    (hvalid : ∀ change ∈ changes, validatePath change.path = .ok ())
    (hdistinct : (changes.map ProposedChange.path).Nodup) (hnew : ∀ change ∈ changes, change.path ∉ seen) :
    validateChanges seen changes = .ok () := by
  induction changes generalizing seen with
  | nil => rfl
  | cons change rest ih =>
    obtain ⟨hfirst, hrest⟩ := List.nodup_cons.mp hdistinct
    rw [validateChanges, hvalid change List.mem_cons_self]
    dsimp only
    rw [if_neg (hnew change List.mem_cons_self)]
    apply ih (fun other hother => hvalid other (List.mem_cons_of_mem _ hother)) hrest
    intro other hother hseen
    rcases List.mem_cons.mp hseen with heq | hseen
    · exact hfirst (heq ▸ List.mem_map_of_mem hother)
    · exact hnew other (List.mem_cons_of_mem _ hother) hseen

/-! ### Missing content -/

/-- The content of a commit that is not complete, each once, in the order in which it is first named. -/
def missingContent (c : Catalog) (request : CommitRequest) : List FileHash :=
  (request.changes.map ProposedChange.contentHash).eraseDups.filter fun h => !c.isFileComplete h.hex

theorem hex_missingContent (c : Catalog) (request : CommitRequest) :
    (missingContent c request).map FileHash.hex =
      c.missingFiles (request.changes.map fun change => change.contentHash.hex) := by
  have hhashes : request.changes.map (fun change => change.contentHash.hex) =
      (request.changes.map ProposedChange.contentHash).map FileHash.hex := by
    rw [List.map_map]
    rfl
  rw [missingContent, Catalog.missingFiles, hhashes, Catalog.eraseDups_map FileHash.hex_injective, List.filter_map]
  rfl

theorem missingFiles_draftOf (c : Catalog) (request : CommitRequest) (now : DateTime) :
    c.missingFiles (Catalog.distinctHashes (draftOf request now).revisions) =
      (missingContent c request).map FileHash.hex := by
  have hrevisions : (draftOf request now).revisions.map Catalog.RevisionDraft.contentHash =
      request.changes.map fun change => change.contentHash.hex := by
    simp [draftOf]
  rw [hex_missingContent, Catalog.missingFiles, Catalog.distinctHashes, hrevisions,
    Catalog.eraseDups_of_nodup (Catalog.nodup_eraseDups _)]
  rfl

theorem mem_missingContent {c : Catalog} {request : CommitRequest} {h : FileHash} :
    h ∈ missingContent c request ↔
      h ∈ request.changes.map ProposedChange.contentHash ∧ ¬c.isFileComplete h.hex := by
  simp [missingContent]

theorem nodup_missingContent (c : Catalog) (request : CommitRequest) : (missingContent c request).Nodup :=
  (Catalog.nodup_eraseDups _).filter _

/-! ### The commit that is made -/

/-- A row and its revisions are the commit of a request to a catalog whose latest commit is `latest`. -/
structure CommitOf (c : Catalog) (latest : CommitSummary) (request : CommitRequest) (now : DateTime)
    (row : CommitSummary) (rows : List Catalog.Revision) : Prop where
  /-- The commit is a new one of the project. -/
  added : row.projectId = request.projectId ∧ ∀ k ∈ c.commits, k.commitId < row.commitId
  /-- It is numbered one past the greatest number of the project's commits. -/
  numbered : Catalog.greatest? ((c.commitsOf request.projectId).map CommitSummary.sequenceNumber) =
    some (row.sequenceNumber - 1)
  described : row.authorId = request.authorId ∧ row.comment = request.message ∧ row.createdAt = now
  counted : row.fileCount = request.changes.length
  /-- There is a revision for each change. -/
  revisions : rows.map (fun r => (r.path, r.contentHash, r.kind)) =
    request.changes.map fun change => (change.path, change.contentHash.hex, change.kind.code)
  made : Catalog.MadeBy row rows
  /-- A revision has as many chunks as the catalog has of its content. -/
  chunks : ∀ r ∈ rows, c.completeCount? r.contentHash = some r.chunkCount
  newest : (c.withCommit row rows).latestCommit? request.projectId = some row
  single : (((c.withCommit row rows).stateAt request.projectId row.commitId).map Catalog.Revision.path).Nodup
  /-- The latest state is the one before with the changes applied. -/
  state : ∀ path, Catalog.lastRevisionAt? ((c.withCommit row rows).stateAt request.projectId row.commitId) path =
    Catalog.applied (c.stateAt request.projectId latest.commitId) rows path

/-- A request makes its commit. -/
def Commits (s : Stores) (request : CommitRequest) (now : DateTime) : Prop :=
  ∃ latest row rows, s.catalog.latestCommit? request.projectId = some latest ∧
    perform (commit request now) s =
      (.ok (.committed row.commitId row.sequenceNumber), { s with catalog := s.catalog.withCommit row rows }) ∧
    CommitOf s.catalog latest request now row rows

section Request

variable {request : CommitRequest} {now : DateTime}

namespace CommitOf

variable {c : Catalog} {latest row : CommitSummary} {rows : List Catalog.Revision}

theorem map_path (h : CommitOf c latest request now row rows) :
    rows.map Catalog.Revision.path = request.changes.map ProposedChange.path := by
  have hpaths := congrArg (List.map Prod.fst) h.revisions
  rwa [List.map_map, List.map_map] at hpaths

theorem fileAt?_of_mem (h : CommitOf c latest request now row rows)
    (hnext : Catalog.HistorySound (c.withCommit row rows))
    (hdistinct : (request.changes.map ProposedChange.path).Nodup) {change : ProposedChange}
    (hchange : change ∈ request.changes) :
    (change.kind = .delete → (c.withCommit row rows).fileAt? request.projectId change.path row.commitId = none) ∧
      (change.kind ≠ .delete →
        ∃ r, (c.withCommit row rows).fileAt? request.projectId change.path row.commitId = some r ∧
          r.contentHash = change.contentHash.hex) := by
  obtain ⟨r, hr, hrow⟩ := List.mem_map.mp (h.revisions ▸ List.mem_map_of_mem hchange)
  obtain ⟨hpath, hcontent, hkind⟩ : r.path = change.path ∧ r.contentHash = change.contentHash.hex ∧
      r.kind = change.kind.code := by simpa using hrow
  have hfile := Catalog.fileAt?_withCommit_of_mem hnext h.made (h.map_path ▸ hdistinct) hr
  have hdelete : r.isDelete ↔ change.kind = .delete := by
    rw [Catalog.isDelete_iff, hkind]
    cases change.kind <;> decide
  rw [h.added.1, hpath] at hfile
  refine ⟨fun hkind => ?_, fun hkind => ⟨r, ?_, hcontent⟩⟩
  · rw [hfile, if_pos (hdelete.mpr hkind)]
  · rw [hfile, if_neg (mt hdelete.mp hkind)]

theorem fileAt?_of_not_mem (h : CommitOf c latest request now row rows)
    (hnext : Catalog.HistorySound (c.withCommit row rows)) (hs : Catalog.HistorySound c) {path : String}
    (hpath : path ∉ request.changes.map ProposedChange.path) :
    (c.withCommit row rows).fileAt? request.projectId path row.commitId =
      c.fileAt? request.projectId path latest.commitId := by
  have hnone : Catalog.lastRevisionAt? rows path = none :=
    Catalog.lastRevisionAt?_eq_none_iff.mpr (h.map_path ▸ hpath)
  have hstate := h.state path
  rwa [hnext.lastRevisionAt?_stateAt, Catalog.applied, hnone, hs.lastRevisionAt?_stateAt] at hstate

end CommitOf

theorem perform_commit (hwrite : AccessLevel.write ≤ s.catalog.projectAccess request.authorId request.projectId)
    (hvalid : ∀ change ∈ request.changes, validatePath change.path = .ok ())
    (hdistinct : (request.changes.map ProposedChange.path).Nodup) {write : Catalog.CommitWrite} {next : Catalog}
    (hanswer : s.catalog.answer (.createCommit (draftOf request now)) = (.ok write, next)) :
    perform (commit request now) s =
      match write with
      | .committed row => (.ok (.committed row.commitId row.sequenceNumber), { s with catalog := next })
      | .missingContent hashes =>
        (((hashes.mapM FileHash.parse).mapError fun e => .internal e.message).map .needsBlocks,
          { s with catalog := next }) := by
  have hchanges : validateChanges [] request.changes = .ok () := validateChanges_eq_ok hvalid hdistinct (by simp)
  rw [commit, perform_bind_ok (perform_requireAccess_ok hwrite), perform_bind_ok (perform_lift_ok hchanges s),
    perform_bind_ok (perform_persist (r := fun _ => .createCommit (draftOf request now)) hanswer _)]
  cases write with
  | committed row => rfl
  | missingContent hashes =>
    dsimp only
    rw [perform_bind, perform_lift]
    cases hashes.mapM FileHash.parse <;> rfl

theorem commit_of_missing (h : Catalog.HistorySound s.catalog)
    (hwrite : AccessLevel.write ≤ s.catalog.projectAccess request.authorId request.projectId)
    (hvalid : ∀ change ∈ request.changes, validatePath change.path = .ok ())
    (hdistinct : (request.changes.map ProposedChange.path).Nodup) (hmissing : missingContent s.catalog request ≠ []) :
    perform (commit request now) s = (.ok (.needsBlocks (missingContent s.catalog request)), s) := by
  have hproject : (s.catalog.project? request.projectId).isSome :=
    h.project_of_access (Nat.le_trans (by decide) hwrite)
  have hcreate : s.catalog.createCommit (draftOf request now) =
      .ok (.missingContent ((missingContent s.catalog request).map FileHash.hex), s.catalog) := by
    rw [Catalog.createCommit_eq s.catalog (draftOf request now) hproject, missingFiles_draftOf]
    cases hlist : missingContent s.catalog request with
    | nil => exact absurd hlist hmissing
    | cons first rest => rfl
  rw [perform_commit hwrite hvalid hdistinct (congrArg s.catalog.commitOr hcreate)]
  dsimp only
  rw [mapM_map_eq_ok fun f _ => FileHash.parse_hex f]
  rfl

theorem commit_of_complete (h : Catalog.HistorySound s.catalog)
    (hwrite : AccessLevel.write ≤ s.catalog.projectAccess request.authorId request.projectId)
    (hvalid : ∀ change ∈ request.changes, validatePath change.path = .ok ())
    (hdistinct : (request.changes.map ProposedChange.path).Nodup) (hmissing : missingContent s.catalog request = []) :
    Commits s request now := by
  have hproject : (s.catalog.project? request.projectId).isSome :=
    h.project_of_access (Nat.le_trans (by decide) hwrite)
  have hnone : s.catalog.missingFiles (Catalog.distinctHashes (draftOf request now).revisions) = [] := by
    rw [missingFiles_draftOf, hmissing, List.map_nil]
  obtain ⟨latest, hlatest⟩ := h.exists_latestCommit hproject
  have hcounts := Catalog.counts_of_missingFiles hnone
  have hnext : Catalog.HistorySound (s.catalog.withCommit (s.catalog.commitOf (draftOf request now))
      (s.catalog.rowsOf (draftOf request now))) :=
    Catalog.historySound_withCommit h hproject request.authorId request.message now hcounts
  obtain ⟨hnew, hnumber⟩ := h.nextCommit_isNew hproject request.authorId request.message
    (draftOf request now).revisions.length now
  have hcreate : s.catalog.createCommit (draftOf request now) =
      .ok (.committed (s.catalog.commitOf (draftOf request now)),
        s.catalog.withCommit (s.catalog.commitOf (draftOf request now)) (s.catalog.rowsOf (draftOf request now))) := by
    rw [Catalog.createCommit_eq s.catalog (draftOf request now) hproject, hnone]
  have hpaths : (s.catalog.rowsOf (draftOf request now)).map Catalog.Revision.path =
      request.changes.map ProposedChange.path := by
    rw [Catalog.rowsOf, Catalog.map_path_rowsFrom]
    simp [draftOf]
  refine ⟨latest, _, _, hlatest,
    perform_commit hwrite hvalid hdistinct (congrArg s.catalog.commitOr hcreate), ?_⟩
  exact {
    added := ⟨rfl, hnew⟩
    numbered := hnumber
    described := ⟨rfl, rfl, rfl⟩
    counted := by simp [Catalog.commitOf, Catalog.nextCommit, draftOf]
    revisions := by
      rw [Catalog.rowsOf, Catalog.revisions_rowsFrom]
      simp [draftOf]
    made := Catalog.madeBy_rowsFrom
    chunks := by
      intro r hr
      obtain ⟨draft, hdraft, hrow⟩ := Catalog.exists_draft hr
      rw [hrow.contentHash, hrow.chunkCount]
      exact hcounts draft hdraft
    newest := Catalog.latestCommit?_withCommit hnext
    single := hnext.nodup_stateAt _ _
    state := Catalog.lastRevisionAt?_withCommit hnext h hlatest
      (Int.le_of_lt (hnew latest (Catalog.mem_commitsOf.mp (h.latestCommit?_mem hlatest)).1))
      Catalog.madeBy_rowsFrom (by rw [hpaths]; exact hdistinct) }

end Request

/-- **In a catalog that requests have made, a commit of distinct valid paths by someone who may write names
exactly the content that is not complete and changes nothing, or makes the commit that was asked for. Once what
it named is complete, the same request is committed.** -/
theorem reachable_commit (requests : List Catalog.Request) (objects : Objects.ObjectStore) (request : CommitRequest)
    (now : DateTime)
    (hwrite : AccessLevel.write ≤ (Catalog.empty.after requests).projectAccess request.authorId request.projectId)
    (hvalid : ∀ change ∈ request.changes, validatePath change.path = .ok ())
    (hdistinct : (request.changes.map ProposedChange.path).Nodup) :
    let c := Catalog.empty.after requests
    let missing := missingContent c request
    (∀ h, h ∈ missing ↔ h ∈ request.changes.map ProposedChange.contentHash ∧ ¬c.isFileComplete h.hex) ∧
      missing.Nodup ∧
      missing.map FileHash.hex = c.missingFiles (request.changes.map fun change => change.contentHash.hex) ∧
      if missing = [] then Commits ⟨c, objects⟩ request now
      else
        perform (commit request now) ⟨c, objects⟩ = (.ok (.needsBlocks missing), ⟨c, objects⟩) ∧
          ∀ (later : List Catalog.Request) (objects : Objects.ObjectStore) (now : DateTime),
            AccessLevel.write ≤ (c.after later).projectAccess request.authorId request.projectId →
            (∀ h ∈ missing, (c.after later).isFileComplete h.hex) → Commits ⟨c.after later, objects⟩ request now := by
  intro c missing
  have h := Catalog.historySound_after requests
  refine ⟨fun _ => mem_missingContent, nodup_missingContent c request, hex_missingContent c request, ?_⟩
  split
  · exact commit_of_complete h hwrite hvalid hdistinct ‹_›
  · refine ⟨commit_of_missing h hwrite hvalid hdistinct ‹_›, fun later objects now hwrite hcomplete => ?_⟩
    have hlater : Catalog.HistorySound (c.after later) := by
      rw [← Catalog.after_append]
      exact Catalog.historySound_after _
    refine commit_of_complete hlater hwrite hvalid hdistinct (List.eq_nil_iff_forall_not_mem.mpr fun f hf => ?_)
    obtain ⟨hnamed, hstill⟩ := mem_missingContent.mp hf
    by_cases hbefore : c.isFileComplete f.hex
    · obtain ⟨n, hn⟩ := Option.isSome_iff_exists.mp hbefore
      exact hstill (by rw [Catalog.isFileComplete, Catalog.completeCount?_after hn]; rfl)
    · exact hstill (hcomplete f (mem_missingContent.mpr ⟨hnamed, hbefore⟩))

/-- A commit names content twice that is not there, once to delete it, beside content that is. It is asked to upload the
one, and committed when it is asked again after that. -/
theorem reachable_commit_uploaded :
    let block : BlockHash := default
    let other : BlockHash := ⟨⟨Vector.replicate 32 1⟩⟩
    let stored := FileHash.ofBlocks [block]
    let lacking := FileHash.ofBlocks [other]
    let requests : List Catalog.Request := [.createProject "team" "title" "ann" .epoch,
      .putBlock ⟨block.hex, "first", 4, .epoch⟩, .registerChunk "ann" ⟨stored.hex, 0, block.hex, 4, 1, .epoch⟩]
    let later : List Catalog.Request :=
      [.putBlock ⟨other.hex, "second", 2, .epoch⟩, .registerChunk "ann" ⟨lacking.hex, 0, other.hex, 2, 1, .epoch⟩]
    let c := Catalog.empty.after requests
    let request : CommitRequest :=
      ⟨1, "ann", "first", [⟨"a", lacking, .add⟩, ⟨"b", stored, .add⟩, ⟨"c", lacking, .delete⟩]⟩
    let objects : Objects.ObjectStore := .files ⟨⟨[]⟩, [], ⟨[], ""⟩, [], 0⟩
    (AccessLevel.write ≤ c.projectAccess request.authorId request.projectId ∧
      (∀ change ∈ request.changes, validatePath change.path = .ok ()) ∧
      (request.changes.map ProposedChange.path).Nodup) ∧
      perform (commit request .epoch) ⟨c, objects⟩ = (.ok (.needsBlocks [lacking]), ⟨c, objects⟩) ∧
      Commits ⟨c.after later, objects⟩ request .epoch := by
  intro block other stored lacking requests later c request objects
  have hvalid : ∀ change ∈ request.changes, validatePath change.path = .ok () := by decide +kernel
  have hdistinct : (request.changes.map ProposedChange.path).Nodup := by decide
  -- One computation for all of it, since the requests are run again in each.
  have hrun : (AccessLevel.write ≤ c.projectAccess "ann" 1 ∧ missingContent c request = [lacking]) ∧
      AccessLevel.write ≤ (c.after later).projectAccess "ann" 1 ∧ (c.after later).isFileComplete lacking.hex := by
    decide +kernel
  obtain ⟨⟨hwrite, hmissing⟩, hlater, hcomplete⟩ := hrun
  have hanswer := reachable_commit requests objects request .epoch hwrite hvalid hdistinct
  dsimp only at hanswer
  rw [hmissing, if_neg (List.cons_ne_nil _ _)] at hanswer
  obtain ⟨-, -, -, hasked, hagain⟩ := hanswer
  refine ⟨⟨hwrite, hvalid, hdistinct⟩, hasked, hagain later objects .epoch hlater fun h hh => ?_⟩
  rw [List.mem_singleton.mp hh]
  exact hcomplete

end Depot.Service
