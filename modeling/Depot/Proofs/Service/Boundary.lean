import Depot.Proofs.Catalog.Integrity
import Depot.Proofs.Catalog.Numbering
import Depot.Proofs.Service.Commit
import Depot.Service.Snapshots

/-!
# Names of commits

A commit of a project goes by its number, by its identifier and, if it is the last one, as the latest. All names of
a commit are answered alike (`exists_shown`): reading an operation's result one cannot tell which was used.
-/

namespace Depot.Service

open Content Time

variable {s : Stores} {user : String} {projectId : Int} {boundary : CommitBoundary} {k : CommitSummary}

/-- The commit of a project that a boundary names. -/
def boundaryCommit? (c : Catalog) (projectId : Int) : CommitBoundary → Option CommitSummary
  | .latest => c.latestCommit? projectId
  | .id commitId => c.commit? projectId commitId
  | .sequence number => c.commitBySequence? projectId number

/-- How a boundary that names no commit is refused. -/
def unknownBoundary (projectId : Int) (boundary : CommitBoundary) : ServiceError :=
  .contentNotFound s!"commit {boundary.describe} in project {projectId}"

theorem perform_resolveBoundary_eq (s : Stores) (projectId : Int) (boundary : CommitBoundary) :
    perform (resolveBoundary projectId boundary) s =
      (match boundaryCommit? s.catalog projectId boundary with
        | some k => .ok k
        | none => .error (unknownBoundary projectId boundary), s) := by
  unfold resolveBoundary
  cases boundary with
  | latest =>
    rw [perform_bind_ok (perform_askCatalog_ok rfl)]
    dsimp only [boundaryCommit?]
    cases s.catalog.latestCommit? projectId <;> rfl
  | id commitId =>
    rw [perform_bind_ok (perform_askCatalog_ok rfl)]
    dsimp only [boundaryCommit?]
    cases s.catalog.commit? projectId commitId <;> rfl
  | sequence number =>
    rw [perform_bind_ok (perform_askCatalog_ok rfl)]
    dsimp only [boundaryCommit?]
    cases s.catalog.commitBySequence? projectId number <;> rfl

theorem perform_resolveBoundary_some (hfound : boundaryCommit? s.catalog projectId boundary = some k) :
    perform (resolveBoundary projectId boundary) s = (.ok k, s) := by
  rw [perform_resolveBoundary_eq, hfound]

/-- A boundary is answered with a commit and its state. -/
structure Shows (s : Stores) (user : String) (projectId : Int) (k : CommitSummary) (state : ProjectState)
    (boundary : CommitBoundary) : Prop where
  commit : perform (resolveBoundary projectId boundary) s = (.ok k, s)
  state : perform (stateAt user projectId boundary) s = (.ok state, s)

/-- A boundary is refused. -/
structure Unknown (s : Stores) (user : String) (projectId : Int) (boundary : CommitBoundary) : Prop where
  commit : perform (resolveBoundary projectId boundary) s = (.error (unknownBoundary projectId boundary), s)
  state : perform (stateAt user projectId boundary) s = (.error (unknownBoundary projectId boundary), s)

theorem perform_filesOf {revisions : List Catalog.Revision} (s : Stores)
    (h : ∀ r ∈ revisions, ∃ file, r.fileState = .ok file) :
    ∃ files, perform (filesOf revisions) s = (.ok files, s) := by
  obtain ⟨files, hfiles⟩ := exists_mapM_eq_ok h
  exact ⟨_, perform_bind_ok (perform_lift_ok hfiles s)⟩

section Reader

variable (hread : AccessLevel.read ≤ s.catalog.projectAccess user projectId)
include hread

theorem exists_shown (h : Catalog.HistorySound s.catalog) (hcontent : Catalog.ContentSound s.catalog)
    (k : CommitSummary) :
    ∃ state : ProjectState, state.commitId = k.commitId ∧ state.sequenceNumber = k.sequenceNumber ∧
      ∀ boundary, boundaryCommit? s.catalog projectId boundary = some k → Shows s user projectId k state boundary := by
  obtain ⟨files, hfiles⟩ := perform_filesOf s fun r (hr : r ∈ s.catalog.stateAt projectId k.commitId) =>
    h.exists_fileState hcontent (Catalog.mem_stateAt_revisions hr)
  refine ⟨⟨projectId, k.commitId, k.sequenceNumber, files⟩, rfl, rfl, fun boundary hfound => ?_⟩
  have hcommit := perform_resolveBoundary_some hfound
  refine ⟨hcommit, ?_⟩
  rw [stateAt, perform_bind_ok (perform_requireAccess_ok hread), resolveState, perform_bind_ok hcommit,
    perform_bind_ok (perform_askCatalog_ok rfl), perform_bind_ok hfiles]
  rfl

theorem unknown_of_none (hnone : boundaryCommit? s.catalog projectId boundary = none) :
    Unknown s user projectId boundary := by
  have hrefused : perform (resolveBoundary projectId boundary) s =
      (.error (unknownBoundary projectId boundary), s) := by
    rw [perform_resolveBoundary_eq, hnone]
  refine ⟨hrefused, ?_⟩
  rw [stateAt, perform_bind_ok (perform_requireAccess_ok hread), resolveState, perform_bind, hrefused]

end Reader

/-- **In every catalog that requests have made, the commits of a project are numbered 1, 2, … without gaps, in the
order of their identifiers. So whoever may read the project is answered alike for all names of a commit: the latest
is the one with the greatest number and the greatest identifier, and a number or an identifier that no commit of the
project has is refused.** -/
theorem reachable_boundaries (requests : List Catalog.Request) (projectId : Int) :
    let c := Catalog.empty.after requests
    let n := c.countCommits projectId
    (c.commitsOf projectId).map CommitSummary.sequenceNumber = (List.range n).map (fun (i : Nat) => (i : Int) + 1) ∧
      (∀ a ∈ c.commitsOf projectId, ∀ b ∈ c.commitsOf projectId,
        a.sequenceNumber < b.sequenceNumber ↔ a.commitId < b.commitId) ∧
      ∀ (user : String) (objects : Objects.ObjectStore), AccessLevel.read ≤ c.projectAccess user projectId →
        let s : Stores := ⟨c, objects⟩
        (∃ k state, k ∈ c.commitsOf projectId ∧ k.sequenceNumber = n ∧
            (∀ j ∈ c.commitsOf projectId, j.commitId ≤ k.commitId) ∧
            Shows s user projectId k state .latest ∧ Shows s user projectId k state (.sequence n)) ∧
          (∀ i : Int, 1 ≤ i → i ≤ n → ∃ k state, k ∈ c.commitsOf projectId ∧ k.sequenceNumber = i ∧
            state.commitId = k.commitId ∧ state.sequenceNumber = i ∧
            Shows s user projectId k state (.sequence i) ∧ Shows s user projectId k state (.id k.commitId)) ∧
          (∀ i : Int, ¬(1 ≤ i ∧ i ≤ n) → Unknown s user projectId (.sequence i)) ∧
          ∀ commitId, (∀ k ∈ c.commits, k.commitId = commitId → k.projectId ≠ projectId) →
            Unknown s user projectId (.id commitId) := by
  intro c n
  have h : Catalog.HistorySound c := Catalog.historySound_after requests
  have hcontent : Catalog.ContentSound c := Catalog.contentSound_after requests
  refine ⟨?_, fun a ha b hb => h.sequence_lt_iff ha hb, fun user objects hread => ?_⟩
  · have hnumbered := h.sequences projectId
    rwa [Catalog.Numbered, List.length_map] at hnumbered
  intro s
  refine ⟨?_, fun i hone hn => ?_, fun i houtside => ?_, fun commitId hother => ?_⟩
  · obtain ⟨latest, hlatest⟩ := h.exists_latestCommit (h.project_of_access hread)
    have hmem := h.latestCommit?_mem hlatest
    have hnumber : latest.sequenceNumber = n := h.latestCommit?_sequence hlatest
    have hsequence : c.commitBySequence? projectId n = some latest := hnumber ▸ h.commitBySequence?_of_mem hmem
    obtain ⟨state, _, _, hshown⟩ := exists_shown (s := s) hread h hcontent latest
    exact ⟨latest, state, hmem, hnumber, fun j hj => (h.le_latestCommit hlatest hj).1, hshown _ hlatest,
      hshown _ hsequence⟩
  · obtain ⟨k, hk, rfl⟩ := h.mem_sequences_iff.mpr ⟨hone, hn⟩
    obtain ⟨state, hid, hnumber, hshown⟩ := exists_shown (s := s) hread h hcontent k
    exact ⟨k, state, hk, rfl, hid, hnumber, hshown _ (h.commitBySequence?_of_mem hk), hshown _ (h.commit?_of_mem hk)⟩
  · exact unknown_of_none hread (h.commitBySequence?_eq_none houtside)
  · exact unknown_of_none hread (Catalog.commit?_eq_none hother)

end Depot.Service
