import Depot.Proofs.Catalog.Snapshot

/-!
# Finding commits by their numbers

The commits of a project are numbered 1, 2, … in the order of their identifiers, so a commit is found by either,
and nothing is found by a number outside that range (`commitBySequence?_eq_none`) or by the identifier of a commit
that the project does not have (`commit?_eq_none`).
-/

namespace Depot.Catalog

variable {c : Catalog} {projectId : Int} {k : CommitSummary}

theorem HistorySound.sequence_lt_iff (h : HistorySound c) {a b : CommitSummary} (ha : a ∈ c.commitsOf projectId)
    (hb : b ∈ c.commitsOf projectId) : a.sequenceNumber < b.sequenceNumber ↔ a.commitId < b.commitId := by
  have hascending := h.ascending_commitsOf projectId
  refine List.Pairwise.forall_of_forall_of_flip
    (R := fun a b : CommitSummary => a.sequenceNumber < b.sequenceNumber ↔ a.commitId < b.commitId)
    (fun _ _ => by omega) (hascending.imp fun hlt => by omega) (hascending.imp fun hlt => ?_) ha hb
  simp only [flip]
  omega

theorem HistorySound.eq_of_sequence_eq (h : HistorySound c) {a b : CommitSummary} (ha : a ∈ c.commitsOf projectId)
    (hb : b ∈ c.commitsOf projectId) (heq : a.sequenceNumber = b.sequenceNumber) : a = b :=
  List.inj_on_of_nodup_map ((h.sequences projectId).ascending.imp fun hlt => by omega) ha hb heq

theorem HistorySound.commitBySequence?_of_mem (h : HistorySound c) (hk : k ∈ c.commitsOf projectId) :
    c.commitBySequence? projectId k.sequenceNumber = some k := by
  obtain ⟨hmem, hown⟩ := mem_commitsOf.mp hk
  refine find?_eq_some_of_only hmem (by simp [hown]) fun other hother hsame => ?_
  simp only [Bool.and_eq_true, beq_iff_eq] at hsame
  exact h.eq_of_sequence_eq (mem_commitsOf.mpr ⟨hother, hsame.1⟩) hk hsame.2

theorem HistorySound.commit?_of_mem (h : HistorySound c) (hk : k ∈ c.commitsOf projectId) :
    c.commit? projectId k.commitId = some k := by
  obtain ⟨hmem, hown⟩ := mem_commitsOf.mp hk
  refine find?_eq_some_of_only hmem (by simp [hown]) fun other hother hsame => ?_
  simp only [Bool.and_eq_true, beq_iff_eq] at hsame
  exact List.inj_on_of_nodup_map (h.commitIds.ascending.imp fun hlt => by omega) hother hmem hsame.2

theorem HistorySound.mem_sequences_iff (h : HistorySound c) {number : Int} :
    (∃ k ∈ c.commitsOf projectId, k.sequenceNumber = number) ↔ 1 ≤ number ∧ number ≤ c.countCommits projectId := by
  rw [← List.mem_map, (h.sequences projectId).mem_iff, List.length_map]
  rfl

theorem HistorySound.commitBySequence?_eq_none (h : HistorySound c) {number : Int}
    (houtside : ¬(1 ≤ number ∧ number ≤ c.countCommits projectId)) : c.commitBySequence? projectId number = none := by
  refine List.find?_eq_none.mpr fun k hk hsame => houtside (h.mem_sequences_iff.mp ⟨k, ?_⟩)
  simp only [Bool.and_eq_true, beq_iff_eq] at hsame
  exact ⟨mem_commitsOf.mpr ⟨hk, hsame.1⟩, hsame.2⟩

theorem commit?_eq_none {commitId : Int} (hother : ∀ k ∈ c.commits, k.commitId = commitId → k.projectId ≠ projectId) :
    c.commit? projectId commitId = none := by
  refine List.find?_eq_none.mpr fun k hk hsame => ?_
  simp only [Bool.and_eq_true, beq_iff_eq] at hsame
  exact hother k hk hsame.2 hsame.1

theorem HistorySound.latestCommit?_sequence (h : HistorySound c) (hlatest : c.latestCommit? projectId = some k) :
    k.sequenceNumber = c.countCommits projectId := by
  have hk := h.latestCommit?_mem hlatest
  have hrange := h.mem_sequences_iff.mp ⟨k, hk, rfl⟩
  obtain ⟨last, hlast, hnumber⟩ := h.mem_sequences_iff.mpr ⟨Int.le_trans hrange.1 hrange.2, Int.le_refl _⟩
  have hle := (h.le_latestCommit hlatest hlast).2
  omega

end Depot.Catalog
