import Depot.Proofs.Catalog.Content
import Depot.Proofs.Catalog.RestorePlan

/-!
# History of reachable catalogs

Projects, commits and revisions are numbered from 1 in the order in which they were made, and so are the
commits of each project. A revision belongs to a commit of its project, and names content that is complete,
with the number of its chunks. Every request keeps this (`historySound_step`).
-/

namespace Depot.Catalog

open Content Time

variable {c next : Catalog} {projectId : Int}

/-! ### Numbers from 1 on -/

/-- The numbers 1, 2, 3, … in their order. -/
def Numbered (ids : List Int) : Prop := ids = (List.range ids.length).map fun (i : Nat) => (i : Int) + 1

theorem numbered_nil : Numbered [] := rfl

theorem Numbered.append {ids : List Int} (h : Numbered ids) : Numbered (ids ++ [(ids.length : Int) + 1]) := by
  unfold Numbered at *
  rw [List.length_append, List.length_singleton, List.range_succ, List.map_append, ← h]
  rfl

theorem Numbered.mem_iff {ids : List Int} (h : Numbered ids) {n : Int} : n ∈ ids ↔ 1 ≤ n ∧ n ≤ ids.length := by
  rw [h]
  simp only [List.mem_map, List.mem_range, List.length_map, List.length_range]
  constructor
  · rintro ⟨i, hi, rfl⟩
    omega
  · intro hn
    exact ⟨(n - 1).toNat, by omega, by omega⟩

theorem Numbered.ascending {ids : List Int} (h : Numbered ids) : ids.Pairwise (· < ·) := by
  rw [h]
  exact List.pairwise_map.mpr (List.pairwise_lt_range.imp fun hlt => by omega)

theorem Numbered.next_eq {ids : List Int} (h : Numbered ids) : (greatest? ids).getD 0 + 1 = ids.length + 1 := by
  by_cases hne : ids = []
  · subst hne
    rfl
  · have hpos := List.length_pos_iff.mpr hne
    have hgreatest : greatest? ids = some (ids.length : Int) :=
      greatest?_eq_some_iff.mpr ⟨h.mem_iff.mpr (by omega), fun m hm => (h.mem_iff.mp hm).2⟩
    rw [hgreatest]
    rfl

/-! ### The rows of a commit -/

variable {count : Nat} {commit : CommitSummary} {chunkCount : String → Int} {drafts : List RevisionDraft}

theorem length_rowsFrom : (rowsFrom count commit chunkCount drafts).length = drafts.length := by
  induction drafts generalizing count with
  | nil => rfl
  | cons draft rest ih => simp [rowsFrom, ih]

theorem map_path_rowsFrom :
    (rowsFrom count commit chunkCount drafts).map Revision.path = drafts.map RevisionDraft.path := by
  induction drafts generalizing count with
  | nil => rfl
  | cons draft rest ih => simp [rowsFrom, ih]

theorem revisions_rowsFrom :
    (rowsFrom count commit chunkCount drafts).map (fun r => (r.path, r.contentHash, r.kind)) =
      drafts.map fun draft => (draft.path, draft.contentHash, draft.kind.code) := by
  induction drafts generalizing count with
  | nil => rfl
  | cons draft rest ih => simp [rowsFrom, ih]

/-- A row says what its draft does. -/
structure RowOf (commit : CommitSummary) (chunkCount : String → Int) (draft : RevisionDraft) (r : Revision) :
    Prop where
  projectId : r.projectId = commit.projectId
  commitId : r.commitId = commit.commitId
  path : r.path = draft.path
  contentHash : r.contentHash = draft.contentHash
  kind : r.kind = draft.kind.code
  chunkCount : r.chunkCount = chunkCount draft.contentHash

theorem exists_draft {r : Revision} (hr : r ∈ rowsFrom count commit chunkCount drafts) :
    ∃ draft ∈ drafts, RowOf commit chunkCount draft r := by
  induction drafts generalizing count with
  | nil => simp [rowsFrom] at hr
  | cons draft rest ih =>
    rcases List.mem_cons.mp hr with rfl | hrest
    · exact ⟨draft, List.mem_cons_self, rfl, rfl, rfl, rfl, rfl, rfl⟩
    · obtain ⟨d, hd, hrow⟩ := ih hrest
      exact ⟨d, List.mem_cons_of_mem _ hd, hrow⟩

theorem numbered_rowsFrom (commit : CommitSummary) (chunkCount : String → Int) (drafts : List RevisionDraft)
    {ids : List Int} (h : Numbered ids) :
    Numbered (ids ++ (rowsFrom ids.length commit chunkCount drafts).map Revision.revisionId) := by
  induction drafts generalizing ids with
  | nil => simpa [rowsFrom] using h
  | cons draft rest ih =>
    have hrest := ih h.append
    rw [List.length_append, List.length_singleton] at hrest
    simpa [rowsFrom] using hrest

/-! ### Soundness -/

/-- Everything that is numbered, and everything that refers to something else, is in order. -/
structure HistorySound (c : Catalog) : Prop where
  projectIds : Numbered (c.projects.map Project.projectId)
  commitIds : Numbered (c.commits.map CommitSummary.commitId)
  revisionIds : Numbered (c.revisions.map Revision.revisionId)
  sequences : ∀ projectId, Numbered ((c.commitsOf projectId).map CommitSummary.sequenceNumber)
  /-- A commit belongs to a project. -/
  owned : ∀ k ∈ c.commits, (c.project? k.projectId).isSome
  /-- A project has a commit. -/
  founded : ∀ projectId, (c.project? projectId).isSome → c.commitsOf projectId ≠ []
  /-- A revision belongs to a commit of its project. -/
  attached : ∀ r ∈ c.revisions, ∃ k ∈ c.commits, k.commitId = r.commitId ∧ k.projectId = r.projectId
  /-- Revisions stand in the order of their commits. -/
  ordered : (c.revisions.map Revision.commitId).Pairwise (· ≤ ·)
  /-- A revision names complete content with the number of its chunks. -/
  counted : ∀ r ∈ c.revisions, c.completeCount? r.contentHash = some r.chunkCount
  kinds : ∀ r ∈ c.revisions, ∃ kind : ChangeKind, r.kind = kind.code
  /-- A grant on a project is one on a project that is there. -/
  grants : ∀ g ∈ c.projectGrants, (c.project? g.projectId).isSome

theorem historySound_empty : HistorySound Catalog.empty where
  projectIds := numbered_nil
  commitIds := numbered_nil
  revisionIds := numbered_nil
  sequences _ := numbered_nil
  owned := by simp [Catalog.empty]
  founded := by simp [Catalog.empty, project?]
  attached := by simp [Catalog.empty]
  ordered := by simp [Catalog.empty]
  counted := by simp [Catalog.empty]
  kinds := by simp [Catalog.empty]
  grants := by simp [Catalog.empty]

theorem isSome_project?_iff : (c.project? projectId).isSome ↔ projectId ∈ c.projects.map Project.projectId := by
  simp [project?]

theorem mem_commitsOf {k : CommitSummary} : k ∈ c.commitsOf projectId ↔ k ∈ c.commits ∧ k.projectId = projectId := by
  simp [commitsOf]

theorem HistorySound.nextSequence_eq (h : HistorySound c) (projectId : Int) :
    c.nextSequence projectId = (c.commitsOf projectId).length + 1 := by
  simpa [nextSequence] using (h.sequences projectId).next_eq

theorem HistorySound.commitId_le (h : HistorySound c) {r : Revision} (hr : r ∈ c.revisions) :
    r.commitId ≤ c.commits.length := by
  obtain ⟨k, hk, hid, _⟩ := h.attached r hr
  have := (h.commitIds.mem_iff.mp (List.mem_map_of_mem hk)).2
  simp only [List.length_map] at this
  omega

/-! ### Requests keep history sound -/

theorem completeCount?_step (hstep : Step c next) {fileHash : String} {n : Int}
    (h : c.completeCount? fileHash = some n) : next.completeCount? fileHash = some n := by
  simpa only [completeCount?, filter_chunks_step hstep (listChunks_ne_nil_of_completeCount? h)] using h

theorem completeCount?_after {fileHash : String} {n : Int} (h : c.completeCount? fileHash = some n)
    (requests : List Request) : (c.after requests).completeCount? fileHash = some n :=
  after_induction (P := fun d => d.completeCount? fileHash = some n)
    (fun _ _ hstep hd => completeCount?_step hstep hd) h requests

theorem HistorySound.transfer (h : HistorySound c) (hprojects : next.projects = c.projects)
    (hcommits : next.commits = c.commits) (hrevisions : next.revisions = c.revisions)
    (hgrants : ∀ g ∈ next.projectGrants, g ∈ c.projectGrants ∨ (c.project? g.projectId).isSome)
    (hcounts : ∀ f n, c.completeCount? f = some n → next.completeCount? f = some n) : HistorySound next := by
  have hproject : next.project? = c.project? := by
    funext p
    simp only [project?, hprojects]
  have hof : next.commitsOf = c.commitsOf := by
    funext p
    simp only [commitsOf, hcommits]
  exact {
    projectIds := hprojects ▸ h.projectIds
    commitIds := hcommits ▸ h.commitIds
    revisionIds := hrevisions ▸ h.revisionIds
    sequences := hof ▸ h.sequences
    owned := by rw [hcommits, hproject]; exact h.owned
    founded := by rw [hof, hproject]; exact h.founded
    attached := by rw [hrevisions, hcommits]; exact h.attached
    ordered := hrevisions ▸ h.ordered
    counted := by rw [hrevisions]; exact fun r hr => hcounts _ _ (h.counted r hr)
    kinds := hrevisions ▸ h.kinds
    grants := by
      rw [hproject]
      exact fun g hg => (hgrants g hg).elim (h.grants g) id }

theorem HistorySound.commitsOf_new (h : HistorySound c) : c.commitsOf (c.projects.length + 1) = [] := by
  apply List.eq_nil_iff_forall_not_mem.mpr
  intro k hk
  obtain ⟨hmem, hproject⟩ := mem_commitsOf.mp hk
  have := (h.projectIds.mem_iff.mp (isSome_project?_iff.mp (h.owned k hmem))).2
  simp only [List.length_map] at this
  omega

theorem isSome_project?_withProject {teamId title createdBy : String} {createdAt : DateTime} :
    ((c.withProject teamId title createdBy createdAt).project? projectId).isSome ↔
      (c.project? projectId).isSome ∨ projectId = c.projects.length + 1 := by
  rw [isSome_project?_iff, isSome_project?_iff]
  simp [withProject]

theorem commitsOf_append_self {commit : CommitSummary} (hproject : commit.projectId = projectId) :
    (c.commits ++ [commit]).filter (fun k => k.projectId == projectId) = c.commitsOf projectId ++ [commit] := by
  simp [commitsOf, hproject]

theorem commitsOf_append_of_ne {commit : CommitSummary} (hproject : commit.projectId ≠ projectId) :
    (c.commits ++ [commit]).filter (fun k => k.projectId == projectId) = c.commitsOf projectId := by
  simp [commitsOf, hproject]

theorem historySound_withProject (h : HistorySound c) (teamId title createdBy : String) (createdAt : DateTime) :
    HistorySound (c.withProject teamId title createdBy createdAt) where
  projectIds := by simpa [withProject] using h.projectIds.append
  commitIds := by simpa [withProject] using h.commitIds.append
  revisionIds := h.revisionIds
  sequences p := by
    unfold withProject
    rw [commitsOf]
    by_cases hp : (c.projects.length : Int) + 1 = p
    · rw [commitsOf_append_self hp, ← hp, h.commitsOf_new]
      exact numbered_nil.append
    · rw [commitsOf_append_of_ne hp]
      exact h.sequences p
  owned k hk := by
    rw [isSome_project?_withProject]
    rcases List.mem_append.mp hk with hk | hk
    · exact .inl (h.owned k hk)
    · rw [List.mem_singleton.mp hk]
      exact .inr rfl
  founded p hp := by
    unfold withProject
    rw [commitsOf]
    by_cases hnew : (c.projects.length : Int) + 1 = p
    · rw [commitsOf_append_self hnew]
      exact List.concat_ne_nil _ _
    · rw [commitsOf_append_of_ne hnew]
      exact h.founded p ((isSome_project?_withProject.mp hp).resolve_right (Ne.symm hnew))
  attached r hr := by
    obtain ⟨k, hk, hid⟩ := h.attached r hr
    exact ⟨k, List.mem_append_left _ hk, hid⟩
  ordered := h.ordered
  counted := h.counted
  kinds := h.kinds
  grants g hg := by
    rw [isSome_project?_withProject]
    rcases List.mem_append.mp hg with hg | hg
    · exact .inl (h.grants g hg)
    · rw [List.mem_singleton.mp hg]
      exact .inr rfl

theorem HistorySound.ordered_append (h : HistorySound c) {rows : List Revision} {id : Int}
    (hlast : ∀ r ∈ c.revisions, r.commitId ≤ id) (hrows : ∀ r ∈ rows, r.commitId = id) :
    ((c.revisions ++ rows).map Revision.commitId).Pairwise (· ≤ ·) := by
  rw [List.pairwise_map, List.pairwise_append]
  refine ⟨List.pairwise_map.mp h.ordered, ?_, fun r hr s hs => (hrows s hs).symm ▸ hlast r hr⟩
  exact List.pairwise_of_forall_mem_list fun r hr s hs => Int.le_of_eq ((hrows r hr).trans (hrows s hs).symm)

theorem historySound_withCommit (h : HistorySound c) (hproject : (c.project? projectId).isSome)
    (authorId comment : String) (createdAt : DateTime)
    (hcounts : ∀ draft ∈ drafts, c.completeCount? draft.contentHash = some (chunkCount draft.contentHash)) :
    HistorySound (c.withCommit (c.nextCommit projectId authorId comment drafts.length createdAt)
      (rowsFrom c.revisions.length (c.nextCommit projectId authorId comment drafts.length createdAt) chunkCount
        drafts)) where
  projectIds := h.projectIds
  commitIds := by simpa [withCommit, nextCommit] using h.commitIds.append
  revisionIds := by
    have hrows := numbered_rowsFrom (c.nextCommit projectId authorId comment drafts.length createdAt) chunkCount
      drafts h.revisionIds
    simpa [withCommit] using hrows
  sequences p := by
    unfold withCommit
    rw [commitsOf]
    by_cases hp : projectId = p
    · rw [commitsOf_append_self hp, List.map_append, ← hp]
      have hseq := h.nextSequence_eq projectId
      simpa [nextCommit, hseq] using (h.sequences projectId).append
    · rw [commitsOf_append_of_ne hp]
      exact h.sequences p
  owned k hk := by
    rcases List.mem_append.mp hk with hk | hk
    · exact h.owned k hk
    · rw [List.mem_singleton.mp hk]
      exact hproject
  founded p hp := by
    unfold withCommit
    rw [commitsOf, List.filter_append]
    exact List.append_ne_nil_of_left_ne_nil (h.founded p hp) _
  attached r hr := by
    rcases List.mem_append.mp hr with hr | hr
    · obtain ⟨k, hk, hid⟩ := h.attached r hr
      exact ⟨k, List.mem_append_left _ hk, hid⟩
    · obtain ⟨draft, _, hrow⟩ := exists_draft hr
      exact ⟨_, List.mem_append_right _ List.mem_cons_self, hrow.commitId.symm, hrow.projectId.symm⟩
  ordered := by
    have hlast : ∀ r ∈ c.revisions, r.commitId ≤ (c.commits.length : Int) + 1 := fun r hr =>
      Int.le_add_one (h.commitId_le hr)
    apply h.ordered_append hlast
    intro r hr
    obtain ⟨_, _, hrow⟩ := exists_draft hr
    exact hrow.commitId
  counted r hr := by
    rcases List.mem_append.mp hr with hr | hr
    · exact h.counted r hr
    · obtain ⟨draft, hdraft, hrow⟩ := exists_draft hr
      rw [hrow.contentHash, hrow.chunkCount]
      exact hcounts draft hdraft
  kinds r hr := by
    rcases List.mem_append.mp hr with hr | hr
    · exact h.kinds r hr
    · obtain ⟨draft, _, hrow⟩ := exists_draft hr
      exact ⟨draft.kind, hrow.kind⟩
  grants := h.grants

/-! ### Chunk counts that a restore copies -/

theorem chunkCountIn_eq {rows : List Revision}
    (hcounted : ∀ r ∈ rows, c.completeCount? r.contentHash = some r.chunkCount) {r : Revision} (hr : r ∈ rows) :
    c.completeCount? r.contentHash = some (chunkCountIn rows r.contentHash) := by
  cases hfound : rows.reverse.find? fun s => s.contentHash == r.contentHash with
  | none =>
    have := List.find?_eq_none.mp hfound r (List.mem_reverse.mpr hr)
    simp at this
  | some s =>
    have hmem := List.mem_reverse.mp (List.mem_of_find?_eq_some hfound)
    have hhash : s.contentHash = r.contentHash := by simpa using List.find?_some hfound
    rw [chunkCountIn, hfound, ← hhash]
    exact hcounted s hmem

theorem mem_stateAt_revisions {boundary : Int} {r : Revision} (hr : r ∈ c.stateAt projectId boundary) :
    r ∈ c.revisions :=
  (List.mem_filter.mp (List.mem_filter.mp hr).1).1

theorem counts_of_plan (h : HistorySound c) {boundary latest : Int}
    (hplan : planRestore (c.stateAt projectId latest) (c.stateAt projectId boundary) = .ok drafts) :
    ∀ draft ∈ drafts, c.completeCount? draft.contentHash =
      some (chunkCountIn (c.stateAt projectId latest ++ c.stateAt projectId boundary) draft.contentHash) := by
  intro draft hdraft
  have hcounted : ∀ r ∈ c.stateAt projectId latest ++ c.stateAt projectId boundary,
      c.completeCount? r.contentHash = some r.chunkCount := fun r hr =>
    h.counted r ((List.mem_append.mp hr).elim mem_stateAt_revisions mem_stateAt_revisions)
  cases (planRestore_eq_ok hplan).restores draft hdraft with
  | brings there contentHash kind =>
    rw [contentHash]
    exact chunkCountIn_eq hcounted (List.mem_append_right _ (lastRevisionAt?_mem there).1)
  | removes gone there contentHash kind =>
    rw [contentHash]
    exact chunkCountIn_eq hcounted (List.mem_append_left _ (lastRevisionAt?_mem there).1)

theorem counts_of_missingFiles (hcomplete : c.missingFiles (distinctHashes drafts) = []) :
    ∀ draft ∈ drafts, c.completeCount? draft.contentHash = some ((c.completeCount? draft.contentHash).getD 0) := by
  intro draft hdraft
  have hmem : draft.contentHash ∈ distinctHashes drafts := mem_distinctHashes.mpr (List.mem_map_of_mem hdraft)
  have hcount : c.isFileComplete draft.contentHash := by
    by_contra hnot
    have := mem_missingFiles.mpr ⟨hmem, by simpa using hnot⟩
    simp [hcomplete] at this
  obtain ⟨n, hn⟩ := Option.isSome_iff_exists.mp hcount
  simp [hn]

theorem historySound_step (hstep : Step c next) (h : HistorySound c) : HistorySound next := by
  have hcounts : ∀ f n, c.completeCount? f = some n → next.completeCount? f = some n := fun _ _ =>
    completeCount?_step hstep
  cases hstep with
  | founded => exact historySound_withProject h _ _ _ _
  | committed project complete => exact historySound_withCommit h project _ _ _ (counts_of_missingFiles complete)
  | restored project known newest planned => exact historySound_withCommit h project _ _ _ (counts_of_plan h planned)
  | granted known => exact h.transfer rfl rfl rfl known hcounts
  | _ => exact h.transfer rfl rfl rfl (fun _ hg => .inl hg) hcounts

theorem HistorySound.project_of_access (h : HistorySound c) {userId : String}
    (hlevel : AccessLevel.read ≤ c.projectAccess userId projectId) : (c.project? projectId).isSome := by
  by_contra hnone
  have hproject : c.project? projectId = none := by simpa using hnone
  have hgrant : c.projectGrants.find? (fun g => g.userId == userId && g.projectId == projectId) = none := by
    refine List.find?_eq_none.mpr fun g hg hmine => hnone ?_
    simp only [Bool.and_eq_true, beq_iff_eq] at hmine
    exact hmine.2 ▸ h.grants g hg
  have hlevels : c.projectAccess userId projectId = .none := by
    simp only [projectAccess, projectLevel, hgrant, hproject, Option.map_none, Option.getD_none]
    decide
  rw [hlevels] at hlevel
  exact absurd hlevel (by decide)

theorem historySound_after (requests : List Request) : HistorySound (Catalog.empty.after requests) :=
  after_induction (fun _ _ => historySound_step) historySound_empty requests

end Depot.Catalog
