import Depot.Proofs.Catalog.Snapshot

/-!
# Restoring an earlier state

A restore makes one commit whose state is the wanted one, and writes only the paths at which the two states
differ. It needs no content but that of revisions that are there, so it never fails for want of content.
-/

namespace Depot.Catalog

open Content Time

variable {c : Catalog} {projectId target : Int} {latest found : CommitSummary}

/-- The content, the kind and the number of chunks that a state has at a path. -/
def contentAt (rows : List Revision) (path : String) : Option (String × Int × Int) :=
  (lastRevisionAt? rows path).map fun r => (r.contentHash, r.kind, r.chunkCount)

theorem versionAt_eq_map_contentAt (rows : List Revision) (path : String) :
    versionAt rows path = (contentAt rows path).map fun content => (content.1, content.2.1) := by
  rw [versionAt, contentAt, Option.map_map]
  rfl

/-- A commit and its rows bring a state back: `before` is the state that they replace. -/
structure BringsBack (c : Catalog) (before : List Revision) (projectId target : Int) (commit : CommitSummary)
    (rows : List Revision) : Prop where
  /-- The commit is a new one of the project. -/
  added : commit.projectId = projectId ∧ ∀ k ∈ c.commits, k.commitId < commit.commitId
  /-- It is numbered one past the greatest number of the project's commits. -/
  numbered : greatest? ((c.commitsOf projectId).map CommitSummary.sequenceNumber) = some (commit.sequenceNumber - 1)
  counted : commit.fileCount = rows.length
  made : MadeBy commit rows
  /-- A state has one revision of each of its paths. -/
  single : ∀ boundary, (((c.withCommit commit rows).stateAt projectId boundary).map Revision.path).Nodup
  same : ∀ path, contentAt ((c.withCommit commit rows).stateAt projectId commit.commitId) path =
    contentAt ((c.withCommit commit rows).stateAt projectId target) path
  /-- The wanted state is the one it was before. -/
  past : (c.withCommit commit rows).stateAt projectId target = c.stateAt projectId target
  ascending : (rows.map Revision.path).Pairwise (· < ·)
  /-- The paths that are written are those at which the two states differ. -/
  differing : ∀ path, path ∈ rows.map Revision.path ↔
    versionAt before path ≠ versionAt (c.stateAt projectId target) path
  /-- A path that the wanted state does not have is deleted. -/
  deleted : ∀ r ∈ rows, r.path ∉ (c.stateAt projectId target).map Revision.path → r.kind = ChangeKind.delete.code
  /-- All other paths keep their revisions. -/
  kept : ∀ path, path ∉ rows.map Revision.path →
    lastRevisionAt? ((c.withCommit commit rows).stateAt projectId commit.commitId) path = lastRevisionAt? before path

theorem HistorySound.chunkCount_eq (h : HistorySound c) {r s : Revision} (hr : r ∈ c.revisions) (hs : s ∈ c.revisions)
    (hhash : r.contentHash = s.contentHash) : r.chunkCount = s.chunkCount := by
  have hcount := h.counted r hr
  rw [hhash, h.counted s hs] at hcount
  exact (Option.some.inj hcount).symm

theorem HistorySound.contentAt_eq (h : HistorySound c) {left right : List Revision} {path : String}
    (hleft : ∀ r ∈ left, r ∈ c.revisions) (hright : ∀ r ∈ right, r ∈ c.revisions)
    (hversion : versionAt left path = versionAt right path) : contentAt left path = contentAt right path := by
  unfold versionAt at hversion
  unfold contentAt
  cases hl : lastRevisionAt? left path with
  | none =>
    rw [hl] at hversion
    rw [Option.map_eq_none_iff.mp hversion.symm]
  | some r =>
    rw [hl] at hversion
    obtain ⟨s, hs, hsame⟩ := Option.map_eq_some_iff.mp hversion.symm
    obtain ⟨hhash, hkind⟩ := Prod.mk.inj hsame
    have hcount :=
      h.chunkCount_eq (hleft r (lastRevisionAt?_mem hl).1) (hright s (lastRevisionAt?_mem hs).1) hhash.symm
    simp [hs, hhash, hkind, hcount]

theorem not_isDelete_of_mem_stateAt {boundary : Int} {r : Revision} (hr : r ∈ c.stateAt projectId boundary) :
    r.isDelete = false := by
  have := (List.mem_filter.mp hr).2
  simp only [Bool.and_eq_true, Bool.not_eq_true'] at this
  exact this.1

section Plan

variable {commit : CommitSummary} {chunkCount : String → Int} {drafts : List RevisionDraft} {rows : List Revision}

theorem contentAt_of_row (hnext : HistorySound (c.withCommit commit rows))
    (hproject : commit.projectId = projectId) (hmade : MadeBy commit rows)
    (hdistinct : (rows.map Revision.path).Nodup) {r : Revision} (hr : r ∈ rows) {draft : RevisionDraft}
    (hrow : RowOf commit chunkCount draft r)
    (hrestores : Restores (c.stateAt projectId latest.commitId) (c.stateAt projectId target) draft) :
    contentAt ((c.withCommit commit rows).stateAt projectId commit.commitId) r.path =
      contentAt (c.stateAt projectId target) r.path := by
  unfold contentAt
  rw [hnext.lastRevisionAt?_stateAt, ← hproject, fileAt?_withCommit_of_mem hnext hmade hdistinct hr, hproject]
  cases hrestores with
  | @brings wanted there contentHash kind =>
    rw [← hrow.path] at there
    have hwanted := (lastRevisionAt?_mem there).1
    have hkind : r.kind = wanted.kind := hrow.kind.trans kind
    have hhash : r.contentHash = wanted.contentHash := hrow.contentHash.trans contentHash
    have hlive : r.isDelete = false := by
      rw [Revision.isDelete, hkind]
      exact not_isDelete_of_mem_stateAt hwanted
    have hcount : r.chunkCount = wanted.chunkCount :=
      hnext.chunkCount_eq (List.mem_append_right _ hr) (List.mem_append_left _ (mem_stateAt_revisions hwanted)) hhash
    simp [hlive, there, hkind, hhash, hcount]
  | removes gone there contentHash kind =>
    rw [← hrow.path] at gone
    have hdelete : r.isDelete := by
      rw [isDelete_iff, hrow.kind, kind]
    simp [hdelete, gone]

theorem bringsBack_of_plan (h : HistorySound c) {authorId comment : String} {createdAt : DateTime}
    (hfound : c.commit? projectId target = some found) (hlatest : c.latestCommit? projectId = some latest)
    (hplan : planRestore (c.stateAt projectId latest.commitId) (c.stateAt projectId target) = .ok drafts)
    (hcommit : commit = c.nextCommit projectId authorId comment drafts.length createdAt)
    (hrows : rows = rowsFrom c.revisions.length commit
      (chunkCountIn (c.stateAt projectId latest.commitId ++ c.stateAt projectId target)) drafts) :
    BringsBack c (c.stateAt projectId latest.commitId) projectId target commit rows := by
  have hplanned := planRestore_eq_ok hplan
  obtain ⟨hown, hid⟩ := commit?_eq_some hfound
  obtain ⟨hmem, howner⟩ := mem_commitsOf.mp hown
  have hnext : HistorySound (c.withCommit commit rows) := by
    rw [hrows, hcommit]
    exact historySound_withCommit h (howner ▸ h.owned found hmem) authorId comment createdAt (counts_of_plan h hplan)
  have hproject : commit.projectId = projectId := by rw [hcommit]; rfl
  obtain ⟨hnew, hnumber⟩ := h.nextCommit_isNew (howner ▸ h.owned found hmem) authorId comment drafts.length createdAt
  rw [← hcommit] at hnew hnumber
  have hmade : MadeBy commit rows := hrows ▸ madeBy_rowsFrom
  have hpaths : rows.map Revision.path = drafts.map RevisionDraft.path := hrows ▸ map_path_rowsFrom
  have hascending : (rows.map Revision.path).Pairwise (· < ·) := hpaths ▸ hplanned.ascending
  have hdistinct : (rows.map Revision.path).Nodup :=
    hascending.imp fun hlt => by
      rintro rfl
      exact String.lt_irrefl _ hlt
  have hdiffering : ∀ path, path ∈ rows.map Revision.path ↔
      versionAt (c.stateAt projectId latest.commitId) path ≠ versionAt (c.stateAt projectId target) path :=
    hpaths ▸ hplanned.differing
  have hpast : (c.withCommit commit rows).stateAt projectId target = c.stateAt projectId target :=
    stateAt_withCommit_of_lt hmade (hid ▸ hnew found hmem)
  have hkept : ∀ path, path ∉ rows.map Revision.path →
      lastRevisionAt? ((c.withCommit commit rows).stateAt projectId commit.commitId) path =
        lastRevisionAt? (c.stateAt projectId latest.commitId) path := by
    intro path hpath
    have hlatestId := hnew latest (mem_commitsOf.mp (h.latestCommit?_mem hlatest)).1
    rw [hnext.lastRevisionAt?_stateAt, h.lastRevisionAt?_stateAt, ← hproject]
    exact fileAt?_withCommit_of_not_mem hnext h (by omega)
      (fun r hr hown => h.within_latest hlatest hr (hown.trans hproject)) hpath
  exact {
    added := ⟨hproject, hnew⟩
    numbered := hnumber
    counted := by rw [hcommit, hrows, length_rowsFrom]; rfl
    made := hmade
    single := hnext.nodup_stateAt projectId
    same := by
      intro path
      rw [hpast]
      by_cases hpath : path ∈ rows.map Revision.path
      · obtain ⟨r, hr, rfl⟩ := List.mem_map.mp hpath
        obtain ⟨draft, hdraft, hrow⟩ := exists_draft (hrows ▸ hr)
        exact contentAt_of_row hnext hproject hmade hdistinct hr hrow (hplanned.restores draft hdraft)
      · -- A path that is not written has the same content in both states, and so the same count.
        have hversion := not_not.mp fun hne => hpath ((hdiffering path).mpr hne)
        rw [contentAt, hkept path hpath]
        exact h.contentAt_eq (fun _ => mem_stateAt_revisions) (fun _ => mem_stateAt_revisions) hversion
    past := hpast
    ascending := hascending
    differing := hdiffering
    deleted := by
      intro r hr hgone
      obtain ⟨draft, hdraft, hrow⟩ := exists_draft (hrows ▸ hr)
      cases hplanned.restores draft hdraft with
      | brings there _ _ =>
        rw [← hrow.path, lastRevisionAt?_eq_none_iff.mpr hgone] at there
        cases there
      | removes _ _ _ kind => rw [hrow.kind, kind]
    kept := hkept }

end Plan

/-! ### Requests to restore a state -/

theorem answer_restoreCommit_none (authorId comment : String) (createdAt : DateTime)
    (hnone : c.commit? projectId target = none) :
    c.answer (.restoreCommit projectId target authorId comment createdAt) =
      (.error (.notFound s!"commit {target} in project {projectId}"), c) := by
  have hrefused : c.restoreCommit projectId target authorId comment createdAt =
      .error (.notFound s!"commit {target} in project {projectId}") := by simp [restoreCommit, hnone]
  exact congrArg c.commitOr hrefused

theorem answer_restoreCommit (h : HistorySound c) (authorId comment : String) (createdAt : DateTime)
    (hfound : c.commit? projectId target = some found) :
    ∃ latest commit rows, c.latestCommit? projectId = some latest ∧
      c.answer (.restoreCommit projectId target authorId comment createdAt) =
        (.ok (commit, rows), c.withCommit commit rows) ∧
      BringsBack c (c.stateAt projectId latest.commitId) projectId target commit rows := by
  obtain ⟨hmem, howner⟩ := mem_commitsOf.mp (commit?_eq_some hfound).1
  have hproject : (c.project? projectId).isSome := howner ▸ h.owned found hmem
  obtain ⟨latest, hlatest⟩ := h.exists_latestCommit hproject
  obtain ⟨drafts, hplan⟩ := exists_planRestore (c.stateAt projectId latest.commitId)
    (fun r (hr : r ∈ c.stateAt projectId target) => h.kinds r (mem_stateAt_revisions hr))
  have hanswer := congrArg c.commitOr
    (restoreCommit_eq authorId comment createdAt hproject hfound hlatest hplan)
  exact ⟨latest, _, _, hlatest, hanswer, bringsBack_of_plan h hfound hlatest hplan rfl rfl⟩

theorem commit?_withCommit {commit : CommitSummary} {rows : List Revision}
    (hfound : c.commit? projectId target = some found) :
    (c.withCommit commit rows).commit? projectId target = some found := by
  simp only [commit?, withCommit, List.find?_append] at hfound ⊢
  rw [hfound]
  rfl

theorem BringsBack.again {before rows again : List Revision} {commit next : CommitSummary}
    (hback : BringsBack c before projectId target commit rows)
    (hagain : BringsBack (c.withCommit commit rows) ((c.withCommit commit rows).stateAt projectId commit.commitId)
      projectId target next again) : again = [] := by
  apply List.eq_nil_iff_forall_not_mem.mpr
  intro r hr
  have hdiffer := (hagain.differing r.path).mp (List.mem_map_of_mem hr)
  rw [versionAt_eq_map_contentAt, versionAt_eq_map_contentAt, hback.same] at hdiffer
  exact hdiffer rfl

/-- **In a catalog that requests have made, a restore of a commit makes one commit that brings its state back
with the fewest revisions, and a restore of anything else is refused; a second restore writes nothing.** -/
theorem reachable_restore (requests : List Request) (projectId target : Int) (authorId comment : String)
    (createdAt : DateTime) :
    let c := Catalog.empty.after requests
    let restore := Request.restoreCommit projectId target authorId comment createdAt
    match c.commit? projectId target with
    | none => c.answer restore = (.error (.notFound s!"commit {target} in project {projectId}"), c)
    | some _ => ∃ latest commit rows, c.latestCommit? projectId = some latest ∧
      c.answer restore = (.ok (commit, rows), c.withCommit commit rows) ∧
      BringsBack c (c.stateAt projectId latest.commitId) projectId target commit rows ∧
      ∀ authorId comment createdAt, ∃ again,
        (c.withCommit commit rows).answer (.restoreCommit projectId target authorId comment createdAt) =
          (.ok (again, []), (c.withCommit commit rows).withCommit again []) ∧ again.fileCount = 0 := by
  intro c restore
  have h := historySound_after requests
  split
  · rename_i hnone
    have hrefused : c.restoreCommit projectId target authorId comment createdAt =
        .error (.notFound s!"commit {target} in project {projectId}") := by simp [restoreCommit, hnone]
    exact congrArg c.commitOr hrefused
  · rename_i found hfound
    obtain ⟨latest, commit, rows, hlatest, hanswer, hback⟩ := answer_restoreCommit h authorId comment createdAt hfound
    have hnext : HistorySound (c.withCommit commit rows) := by
      have := historySound_step (answer_step c restore) h
      rwa [hanswer] at this
    refine ⟨latest, commit, rows, hlatest, hanswer, hback, fun authorId comment createdAt => ?_⟩
    obtain ⟨latest', again, rows', hlatest', hanswer', hagain⟩ :=
      answer_restoreCommit hnext authorId comment createdAt (commit?_withCommit hfound)
    rw [← hback.added.1, latestCommit?_withCommit hnext] at hlatest'
    cases hlatest'
    have hnothing := hback.again hagain
    subst hnothing
    exact ⟨again, hanswer', hagain.counted⟩

end Depot.Catalog
