import Depot.Proofs.Catalog.Past

/-!
# The paths of revisions

A catalog does not look at paths. If each commit that it is asked for has accepted paths, none of them twice, then
all its revisions have accepted paths, and none of its commits has one twice (`pathsSound_answer`). A restore keeps
this without a check: it takes its paths from two states, each path once.
-/

namespace Depot.Catalog

open Content Time

variable {c next : Catalog} {commit : CommitSummary} {rows : List Revision} {drafts : List RevisionDraft}

/-- Revisions have accepted paths, and a commit has none twice. -/
structure PathsSound (c : Catalog) : Prop where
  valid : ∀ r ∈ c.revisions, validatePath r.path = .ok ()
  distinct : ∀ commitId, ((c.commitRevisions commitId).map Revision.path).Nodup

theorem pathsSound_empty : PathsSound Catalog.empty where
  valid r hr := by cases hr
  distinct _ := List.nodup_nil

theorem PathsSound.of_revisions (h : PathsSound c) (hrevisions : next.revisions = c.revisions) : PathsSound next where
  valid := hrevisions ▸ h.valid
  distinct commitId := by
    rw [commitRevisions, hrevisions]
    exact h.distinct commitId

/-- Drafts have accepted paths, none of them twice. -/
structure PathsAccepted (drafts : List RevisionDraft) : Prop where
  valid : ∀ draft ∈ drafts, validatePath draft.path = .ok ()
  distinct : (drafts.map RevisionDraft.path).Nodup

/-- Only a commit that is asked for brings paths along. -/
def Request.PathsAccepted : Request → Prop
  | .createCommit draft => Catalog.PathsAccepted draft.revisions
  | _ => True

theorem PathsSound.withCommit (h : PathsSound c) (hsound : HistorySound c) {count : Nat} {chunkCount : String → Int}
    (hnew : ∀ k ∈ c.commits, k.commitId < commit.commitId) (hdrafts : PathsAccepted drafts) :
    PathsSound (c.withCommit commit (rowsFrom count commit chunkCount drafts)) where
  valid r hr := by
    rcases List.mem_append.mp hr with hr | hr
    · exact h.valid r hr
    · obtain ⟨draft, hdraft, hrow⟩ := exists_draft hr
      rw [hrow.path]
      exact hdrafts.valid draft hdraft
  distinct commitId := by
    have hmade : MadeBy commit (rowsFrom count commit chunkCount drafts) := madeBy_rowsFrom
    rw [commitRevisions, Catalog.withCommit, List.filter_append]
    by_cases hid : commitId = commit.commitId
    · have hold : c.revisions.filter (fun r => r.commitId == commitId) = [] := by
        refine List.filter_eq_nil_iff.mpr fun r hr heq => ?_
        obtain ⟨k, hk, hkid, _⟩ := hsound.attached r hr
        have hlt := hnew k hk
        rw [hkid, beq_iff_eq.mp heq, hid] at hlt
        exact Int.lt_irrefl _ hlt
      rw [hold, List.nil_append]
      refine List.Sublist.nodup (List.filter_sublist.map _) ?_
      rw [map_path_rowsFrom]
      exact hdrafts.distinct
    · have hown : (rowsFrom count commit chunkCount drafts).filter (fun r => r.commitId == commitId) = [] :=
        List.filter_eq_nil_iff.mpr fun r hr heq => hid ((beq_iff_eq.mp heq).symm.trans (hmade r hr).2)
      rw [hown, List.append_nil]
      exact h.distinct commitId

theorem PathsSound.of_plan (h : PathsSound c) {projectId latest target : Int}
    (hplan : planRestore (c.stateAt projectId latest) (c.stateAt projectId target) = .ok drafts) :
    PathsAccepted drafts where
  valid draft hdraft := by
    cases (planRestore_eq_ok hplan).restores draft hdraft with
    | brings there _ _ =>
      obtain ⟨hmem, hpath⟩ := lastRevisionAt?_mem there
      exact hpath ▸ h.valid _ (mem_stateAt_revisions hmem)
    | removes _ there _ _ =>
      obtain ⟨hmem, hpath⟩ := lastRevisionAt?_mem there
      exact hpath ▸ h.valid _ (mem_stateAt_revisions hmem)
  distinct := (planRestore_eq_ok hplan).ascending.imp String.ne_of_lt

/-- **A request that brings no paths but accepted ones, each once, leaves only such.** -/
theorem pathsSound_answer {r : Request} (hr : r.PathsAccepted) (h : PathsSound c) (hsound : HistorySound c) :
    PathsSound (c.answer r).2 := by
  cases r with
  | createCommit draft =>
    refine commitOr_next h fun write next hnext => ?_
    obtain rfl | ⟨hproject, _, rfl⟩ := createCommit_eq_ok hnext
    · exact h
    · exact h.withCommit hsound (hsound.nextCommit_isNew hproject _ _ _ _).1 hr
  | restoreCommit projectId target authorId comment createdAt =>
    refine commitOr_next h fun written next hnext => ?_
    obtain ⟨latest, drafts, hproject, _, _, hplan, rfl⟩ := restoreCommit_eq_ok hnext
    exact h.withCommit hsound (hsound.nextCommit_isNew hproject _ _ _ _).1 (h.of_plan hplan)
  | createProject teamId title createdBy createdAt =>
    refine commitOr_next h fun project next hnext => ?_
    rw [createProject_eq_ok hnext]
    exact h.of_revisions rfl
  | _ => exact h.of_revisions (sameRows_answer rfl).revisions

end Depot.Catalog
