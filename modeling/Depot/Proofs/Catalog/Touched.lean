import Depot.Proofs.Catalog.Numbering
import Depot.Proofs.Catalog.Replay

/-!
# What commits have touched

A revision that is live at a commit is still live at a later one exactly if no commit in between has a revision of its
path (`mem_stateAt_later_iff`): a revision never comes back once another one has taken its place.
-/

namespace Depot.Catalog

variable {c : Catalog} {projectId boundary : Int} {path : String} {r s : Revision} {a b : CommitSummary}

/-- A commit of the project after one and up to another has a revision of the path. -/
def TouchedBetween (c : Catalog) (projectId : Int) (a b : CommitSummary) (path : String) : Prop :=
  ∃ k ∈ c.commitsOf projectId, (a.sequenceNumber < k.sequenceNumber ∧ k.sequenceNumber ≤ b.sequenceNumber) ∧
    ∃ r ∈ c.commitRevisions k.commitId, r.path = path

theorem HistorySound.eq_of_revisionId_eq (h : HistorySound c) (hr : r ∈ c.revisions) (hs : s ∈ c.revisions)
    (heq : r.revisionId = s.revisionId) : r = s :=
  List.inj_on_of_nodup_map (h.revisionIds.ascending.imp fun hlt => by omega) hr hs heq

theorem HistorySound.commit_of_revision (h : HistorySound c) (hr : r ∈ c.revisions) :
    ∃ k ∈ c.commitsOf r.projectId, k.commitId = r.commitId := by
  obtain ⟨k, hk, hid, hown⟩ := h.attached r hr
  exact ⟨k, mem_commitsOf.mpr ⟨hk, hown⟩, hid⟩

theorem HistorySound.projectId_of_commitRevisions (h : HistorySound c) {k : CommitSummary}
    (hk : k ∈ c.commitsOf projectId) (hr : r ∈ c.commitRevisions k.commitId) : r.projectId = projectId := by
  obtain ⟨hmem, hid⟩ := List.mem_filter.mp hr
  obtain ⟨made, hmade, hmadeId, hown⟩ := h.attached r hmem
  obtain ⟨hmemK, hownK⟩ := mem_commitsOf.mp hk
  have hsame : made = k := List.inj_on_of_nodup_map (h.commitIds.ascending.imp fun hlt => by omega) hmade hmemK
    (hmadeId.trans (beq_iff_eq.mp hid))
  rw [← hown, hsame, hownK]

theorem HistorySound.touchedBetween_iff (h : HistorySound c) (ha : a ∈ c.commitsOf projectId)
    (hb : b ∈ c.commitsOf projectId) :
    c.TouchedBetween projectId a b path ↔
      ∃ s ∈ c.revisions, s.projectId = projectId ∧ s.path = path ∧
        a.commitId < s.commitId ∧ s.commitId ≤ b.commitId := by
  constructor
  · rintro ⟨k, hk, ⟨hafter, hupto⟩, s, hs, rfl⟩
    have hid : s.commitId = k.commitId := by simpa using (List.mem_filter.mp hs).2
    have hlt := (h.sequence_lt_iff ha hk).mp hafter
    have hle := mt (h.sequence_lt_iff hb hk).mpr (Int.not_lt.mpr hupto)
    exact ⟨s, (List.mem_filter.mp hs).1, h.projectId_of_commitRevisions hk hs, rfl, by omega, by omega⟩
  · rintro ⟨s, hs, rfl, rfl, hafter, hupto⟩
    obtain ⟨k, hk, hid⟩ := h.commit_of_revision hs
    have hlt := (h.sequence_lt_iff ha hk).mpr (by omega)
    have hle := mt (h.sequence_lt_iff hb hk).mp (by omega)
    exact ⟨k, hk, ⟨hlt, by omega⟩, s, List.mem_filter.mpr ⟨hs, by simp [hid]⟩, rfl⟩

theorem mem_stateAt_iff_newest :
    r ∈ c.stateAt projectId boundary ↔
      (r ∈ c.revisions ∧ r.projectId = projectId ∧ r.commitId ≤ boundary ∧ r.isDelete = false) ∧
        ∀ s ∈ c.revisions, s.projectId = projectId → s.commitId ≤ boundary → s.path = r.path →
          s.revisionId ≤ r.revisionId := by
  simp only [stateAt, List.mem_filter, isWithin, Bool.and_eq_true, beq_iff_eq, decide_eq_true_eq, List.all_eq_true,
    Bool.or_eq_true, bne_iff_ne, Bool.not_eq_true']
  grind

/-- **A live revision stays live exactly if its path is not touched.** -/
theorem HistorySound.mem_stateAt_later_iff (h : HistorySound c) (ha : a ∈ c.commitsOf projectId)
    (hb : b ∈ c.commitsOf projectId) (hle : a.commitId ≤ b.commitId) (hr : r ∈ c.stateAt projectId a.commitId) :
    r ∈ c.stateAt projectId b.commitId ↔ ¬c.TouchedBetween projectId a b r.path := by
  obtain ⟨⟨hmem, hown, hbefore, hkept⟩, hnewest⟩ := mem_stateAt_iff_newest.mp hr
  rw [mem_stateAt_iff_newest, h.touchedBetween_iff ha hb]
  constructor
  · rintro ⟨_, hstill⟩ ⟨s, hs, hsown, hpath, hafter, hupto⟩
    have := hstill s hs hsown hupto hpath
    have := h.revision_lt hmem hs (by omega)
    omega
  · intro huntouched
    refine ⟨⟨hmem, hown, by omega, hkept⟩, fun s hs hsown hupto hpath => ?_⟩
    by_cases hafter : a.commitId < s.commitId
    · exact absurd ⟨s, hs, hsown, hpath, hafter, hupto⟩ huntouched
    · exact hnewest s hs hsown (by omega) hpath

end Depot.Catalog
