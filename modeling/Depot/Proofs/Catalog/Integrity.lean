import Depot.Proofs.Catalog.Replay
import Depot.Proofs.Catalog.Restore
import Depot.Proofs.Content.Spelling

/-!
# References of reachable catalogs

- `Anchored`: what a revision refers to is there, and it names the number of its chunks.
- `Tallied`: commits name the number of their revisions, and the first one of a project has none. A request adds
  at most one commit, behind all others and with its rows, so every request keeps this (`tallied_step`).
-/

namespace Depot.Catalog

open Content Time

variable {c next : Catalog} {commit : CommitSummary} {rows : List Revision}

/-! ### Revisions -/

/-- A revision belongs to a commit of its project, and names complete content with the number of its chunks. -/
structure Anchored (c : Catalog) (r : Revision) : Prop where
  commit : ∃ k, c.commit? r.projectId r.commitId = some k
  complete : c.isFileComplete r.contentHash
  counted : r.chunkCount = c.countRegistered r.contentHash

theorem countRegistered_of_completeCount? {fileHash : String} {n : Int} (h : c.completeCount? fileHash = some n) :
    n = c.countRegistered fileHash := by
  have hlength := (Option.filter_eq_some_iff.mp h).2
  exact (beq_iff_eq.mp hlength).symm

theorem HistorySound.anchored (h : HistorySound c) {r : Revision} (hr : r ∈ c.revisions) : Anchored c r where
  commit := by
    obtain ⟨k, hk, hid, hown⟩ := h.attached r hr
    refine Option.isSome_iff_exists.mp (List.find?_isSome.mpr ⟨k, hk, ?_⟩)
    simp [hid, hown]
  complete := by
    rw [isFileComplete, h.counted r hr]
    rfl
  counted := countRegistered_of_completeCount? (h.counted r hr)

/-- In sound history the file of a revision is in the catalog with the number of chunks that the revision names. -/
theorem HistorySound.fileSound (h : HistorySound c) (hcontent : ContentSound c) {r : Revision} (hr : r ∈ c.revisions) :
    ∃ n : Nat, FileSound c r.contentHash n ∧ r.chunkCount = n := by
  have hne : c.listChunks r.contentHash ≠ [] := (isFileComplete_iff hcontent).mp (h.anchored hr).complete
  obtain ⟨n, hfile⟩ := hcontent.files r.contentHash hne
  have hcount := h.counted r hr
  rw [hfile.completeCount?_eq] at hcount
  exact ⟨n, hfile, (Option.some.inj hcount).symm⟩

theorem HistorySound.exists_fileState (h : HistorySound c) (hcontent : ContentSound c) {r : Revision}
    (hr : r ∈ c.revisions) : ∃ file, r.fileState = .ok file := by
  obtain ⟨kind, hkind⟩ := h.kinds r hr
  obtain ⟨n, hfile, _⟩ := h.fileSound hcontent hr
  obtain ⟨hash, hparse⟩ := exists_parse_of_blocksCompose hfile.composes
  exact ⟨_, by rw [Revision.fileState, changeKind_eq_ok hkind, ok_bind, hparse]; rfl⟩

/-! ### Commits -/

/-- A commit names the number of its revisions, and the first one of a project has none. -/
structure Tallied (c : Catalog) : Prop where
  counts : ∀ k ∈ c.commits, k.fileCount = (c.commitRevisions k.commitId).length
  first : ∀ k ∈ c.commits, k.sequenceNumber = 1 → k.fileCount = 0

theorem tallied_empty : Tallied Catalog.empty where
  counts := by simp [Catalog.empty]
  first := by simp [Catalog.empty]

theorem Tallied.transfer (h : Tallied c) (hcommits : next.commits = c.commits)
    (hrevisions : next.revisions = c.revisions) : Tallied next where
  counts := by
    unfold commitRevisions
    rw [hcommits, hrevisions]
    exact h.counts
  first := hcommits ▸ h.first

theorem commitRevisions_withCommit_of_mem (hmade : MadeBy commit rows)
    (hnew : ∀ k ∈ c.commits, k.commitId < commit.commitId) {k : CommitSummary} (hk : k ∈ c.commits) :
    (c.withCommit commit rows).commitRevisions k.commitId = c.commitRevisions k.commitId := by
  have hnone : rows.filter (fun r => r.commitId == k.commitId) = [] := by
    refine List.filter_eq_nil_iff.mpr fun r hr => ?_
    have hrow := (hmade r hr).2
    have hlt := hnew k hk
    simp only [beq_iff_eq]
    omega
  rw [commitRevisions, withCommit, List.filter_append, hnone, List.append_nil]
  rfl

theorem Tallied.withCommit (ht : Tallied c) (h : HistorySound c) (hmade : MadeBy commit rows)
    (hnew : ∀ k ∈ c.commits, k.commitId < commit.commitId) (hcount : commit.fileCount = rows.length)
    (hfirst : commit.sequenceNumber = 1 → commit.fileCount = 0) : Tallied (c.withCommit commit rows) where
  counts k hk := by
    rcases List.mem_append.mp hk with hold | hk
    · rw [commitRevisions_withCommit_of_mem hmade hnew hold]
      exact ht.counts k hold
    · rw [List.mem_singleton.mp hk, commitRevisions_withCommit h hmade hnew]
      exact hcount
  first k hk := by
    rcases List.mem_append.mp hk with hold | hk
    · exact ht.first k hold
    · rw [List.mem_singleton.mp hk]
      exact hfirst

theorem HistorySound.one_lt_nextSequence (h : HistorySound c) {projectId : Int}
    (hproject : (c.project? projectId).isSome) : 1 < c.nextSequence projectId := by
  have hpos := List.length_pos_iff.mpr (h.founded projectId hproject)
  rw [h.nextSequence_eq]
  omega

theorem tallied_withRows (ht : Tallied c) (h : HistorySound c) {projectId : Int}
    (hproject : (c.project? projectId).isSome) (authorId comment : String) (createdAt : DateTime)
    (chunkCount : String → Int) (drafts : List RevisionDraft) :
    Tallied (c.withCommit (c.nextCommit projectId authorId comment drafts.length createdAt)
      (rowsFrom c.revisions.length (c.nextCommit projectId authorId comment drafts.length createdAt) chunkCount
        drafts)) := by
  refine ht.withCommit h madeBy_rowsFrom (h.nextCommit_isNew hproject _ _ _ _).1 ?_ fun hone => ?_
  · rw [length_rowsFrom]
    rfl
  · have hlt := h.one_lt_nextSequence hproject
    exact absurd hone (Int.ne_of_gt hlt)

theorem tallied_withProject (ht : Tallied c) (h : HistorySound c) (teamId title createdBy : String)
    (createdAt : DateTime) : Tallied (c.withProject teamId title createdBy createdAt) := by
  have hnew : ∀ k ∈ c.commits, k.commitId < (c.commits.length : Int) + 1 := fun k hk => by
    have hle := (h.commitIds.mem_iff.mp (List.mem_map_of_mem hk)).2
    rw [List.length_map] at hle
    omega
  have hempty : Tallied (c.withCommit ⟨c.commits.length + 1, c.projects.length + 1, 1, createdBy,
      initialCommitMessage, 0, createdAt⟩ []) := ht.withCommit h nofun hnew rfl fun _ => rfl
  exact hempty.transfer rfl (List.append_nil _).symm

theorem tallied_step (hstep : Step c next) (h : HistorySound c) (ht : Tallied c) : Tallied next := by
  cases hstep with
  | founded => exact tallied_withProject ht h _ _ _ _
  | committed project complete => exact tallied_withRows ht h project _ _ _ _ _
  | restored project known newest planned => exact tallied_withRows ht h project _ _ _ _ _
  | _ => exact ht.transfer rfl rfl

theorem tallied_after (requests : List Request) : Tallied (Catalog.empty.after requests) := by
  refine (after_induction (P := fun c => HistorySound c ∧ Tallied c) (fun c next hstep hc => ?_) ?_ requests).2
  · exact ⟨historySound_step hstep hc.1, tallied_step hstep hc.1 hc.2⟩
  · exact ⟨historySound_empty, tallied_empty⟩

/-! ### First commits -/

theorem Numbered.head_eq {n : Int} {rest : List Int} (h : Numbered (n :: rest)) : n = 1 := by
  -- The number 1 is one of them, and what comes behind the first is greater.
  have hone : 1 ∈ n :: rest := h.mem_iff.mpr ⟨by omega, by simp only [List.length_cons]; omega⟩
  have hn := (h.mem_iff.mp List.mem_cons_self).1
  rcases List.mem_cons.mp hone with heq | hlater
  · exact heq.symm
  · have := (List.pairwise_cons.mp h.ascending).1 1 hlater
    omega

theorem HistorySound.exists_first (h : HistorySound c) {projectId : Int} (hproject : (c.project? projectId).isSome) :
    ∃ k, (c.commitsOf projectId).filter (fun k => k.sequenceNumber == 1) = [k] := by
  obtain ⟨k, rest, hlist⟩ := List.exists_cons_of_ne_nil (h.founded projectId hproject)
  have hnumbered := h.sequences projectId
  rw [hlist, List.map_cons] at hnumbered
  have hone := hnumbered.head_eq
  have hlater : ∀ j ∈ rest, j.sequenceNumber ≠ 1 := fun j hj => by
    have := (List.pairwise_cons.mp hnumbered.ascending).1 j.sequenceNumber (List.mem_map_of_mem hj)
    omega
  refine ⟨k, ?_⟩
  rw [hlist, List.filter_cons_of_pos (by simpa using hone), List.filter_eq_nil_iff.mpr]
  simpa using hlater

/-- **In every catalog that requests have made, each revision belongs to a commit of its project and names complete
content with its number of chunks, each commit names the number of its revisions, and each project has one first
commit, without revisions. The rows that a restore answers are the revisions of its commit, so this holds of
them.** -/
theorem reachable_references (requests : List Request) :
    let c := Catalog.empty.after requests
    (∀ r ∈ c.revisions, Anchored c r) ∧
      (∀ k ∈ c.commits, k.fileCount = (c.commitRevisions k.commitId).length) ∧
      (∀ p ∈ c.projects, ∃ k, (c.commitsOf p.projectId).filter (fun k => k.sequenceNumber == 1) = [k] ∧
        k.fileCount = 0 ∧ c.commitRevisions k.commitId = []) ∧
      ∀ projectId target authorId comment createdAt commit rows next,
        c.answer (.restoreCommit projectId target authorId comment createdAt) = (.ok (commit, rows), next) →
        next.commitRevisions commit.commitId = rows ∧ commit.fileCount = rows.length ∧ ∀ r ∈ rows, Anchored next r := by
  intro c
  have h : HistorySound c := historySound_after requests
  have ht : Tallied c := tallied_after requests
  refine ⟨fun r hr => h.anchored hr, ht.counts, fun p hp => ?_, ?_⟩
  · obtain ⟨k, hfirst⟩ := h.exists_first (isSome_project?_iff.mpr (List.mem_map_of_mem hp))
    obtain ⟨hk, hone⟩ := List.mem_filter.mp (hfirst ▸ List.mem_singleton_self k)
    have hmem := (mem_commitsOf.mp hk).1
    have hnone := ht.first k hmem (beq_iff_eq.mp hone)
    refine ⟨k, hfirst, hnone, List.length_eq_zero_iff.mp ?_⟩
    have hcount := ht.counts k hmem
    omega
  · intro projectId target authorId comment createdAt commit rows next hanswer
    have hnext : HistorySound next := by
      have hsound := historySound_step (answer_step c (.restoreCommit projectId target authorId comment createdAt)) h
      rwa [hanswer] at hsound
    cases hfound : c.commit? projectId target with
    | none =>
      rw [answer_restoreCommit_none authorId comment createdAt hfound] at hanswer
      cases hanswer
    | some found =>
      obtain ⟨latest, made, written, hlatest, hmade, hback⟩ :=
        answer_restoreCommit h authorId comment createdAt hfound
      rw [hmade] at hanswer
      cases hanswer
      have hrows := commitRevisions_withCommit h hback.made hback.added.2
      exact ⟨hrows, hback.counted, fun r hr => hnext.anchored (List.mem_append_right _ hr)⟩

end Depot.Catalog
