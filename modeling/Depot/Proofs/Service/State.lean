import Depot.Proofs.Service.Boundary
import Depot.Proofs.Snapshot

/-!
# Answered states

- `Reads`: the file that a revision is answered as.
- `Lists`: a state lists the files that are live at a commit (`LiveAt`), in the order of their paths. The state at a
  commit is answered so, by whatever name the commit goes (`exists_resolved`).
- Looking a path up in such a state is looking it up in the catalog (`Lists.get?_eq_some_iff`).
-/

namespace Depot.Service

open Content Time

variable {s : Stores} {c : Catalog} {projectId : Int} {k : CommitSummary} {r : Catalog.Revision} {f : FileState}
  {path : String}

/-! ### Files of revisions -/

/-- A file says what its revision does. -/
structure Reads (r : Catalog.Revision) (f : FileState) : Prop where
  path : f.path = r.path
  contentHash : FileHash.parse r.contentHash = .ok f.contentHash
  commitId : f.commitId = r.commitId
  revisionId : f.revisionId = r.revisionId
  chunkCount : f.chunkCount = r.chunkCount

theorem reads_of_fileState (h : r.fileState = .ok f) : Reads r f := by
  obtain ⟨kind, _, h⟩ := bind_eq_ok.mp h
  cases hhash : FileHash.parse r.contentHash with
  | error e =>
    rw [hhash] at h
    cases h
  | ok hash =>
    rw [hhash] at h
    cases h
    exact ⟨rfl, hhash, rfl, rfl, rfl⟩

theorem mapM_fileState {rows : List Catalog.Revision} {files : List FileState}
    (h : rows.mapM Catalog.Revision.fileState = .ok files) :
    files.map FileState.path = rows.map Catalog.Revision.path ∧ ∀ f, f ∈ files ↔ ∃ r ∈ rows, r.fileState = .ok f := by
  induction rows generalizing files with
  | nil =>
    cases h
    simp
  | cons r rest ih =>
    rw [List.mapM_cons] at h
    obtain ⟨file, hfile, h⟩ := bind_eq_ok.mp h
    obtain ⟨others, hothers, h⟩ := bind_eq_ok.mp h
    cases h
    obtain ⟨hpaths, hmem⟩ := ih hothers
    refine ⟨by rw [List.map_cons, List.map_cons, hpaths, (reads_of_fileState hfile).path], fun f => ?_⟩
    simp only [List.mem_cons, exists_eq_or_imp, hmem, hfile, Except.ok.injEq]
    exact or_congr_left eq_comm

theorem ascendingByPath_mergeSort {files : List FileState} (h : (files.map FileState.path).Nodup) :
    AscendingByPath (files.mergeSort fun a b => decide (a.path ≤ b.path)) := by
  have hsorted : (files.mergeSort fun a b => decide (a.path ≤ b.path)).Pairwise fun a b => a.path ≤ b.path := by
    refine (List.pairwise_mergeSort (fun a b d hab hbd => ?_) (fun a b => ?_) files).imp fun hle => by simpa using hle
    · simp only [decide_eq_true_eq] at *
      exact String.le_trans hab hbd
    · simpa using String.le_total a.path b.path
  have hdistinct : ((files.mergeSort fun a b => decide (a.path ≤ b.path)).map FileState.path).Nodup :=
    ((List.mergeSort_perm _ _).map FileState.path).nodup_iff.mpr h
  refine List.pairwise_map.mpr ((hsorted.and (List.pairwise_map.mp hdistinct)).imp fun {a b} hab => ?_)
  by_contra hlt
  exact hab.2 (String.le_antisymm hab.1 (String.not_lt.mp hlt))

/-! ### States -/

/-- The file is that of a revision which is live at a commit of a project. -/
def LiveAt (c : Catalog) (projectId : Int) (k : CommitSummary) (f : FileState) : Prop :=
  ∃ r ∈ c.stateAt projectId k.commitId, r.fileState = .ok f

/-- A state lists the files that are live at a commit of a project. -/
structure Lists (c : Catalog) (projectId : Int) (k : CommitSummary) (state : ProjectState) : Prop where
  project : state.projectId = projectId
  commitId : state.commitId = k.commitId
  sequenceNumber : state.sequenceNumber = k.sequenceNumber
  ascending : AscendingByPath state.files
  mem_iff : ∀ f, f ∈ state.files ↔ LiveAt c projectId k f

theorem exists_resolved (h : Catalog.HistorySound s.catalog) (hcontent : Catalog.ContentSound s.catalog)
    (projectId : Int) (k : CommitSummary) :
    ∃ state, Lists s.catalog projectId k state ∧ ∀ boundary, boundaryCommit? s.catalog projectId boundary = some k →
      perform (resolveState projectId boundary) s = (.ok state, s) := by
  obtain ⟨files, hfiles⟩ := exists_mapM_eq_ok fun r (hr : r ∈ s.catalog.stateAt projectId k.commitId) =>
    h.exists_fileState hcontent (Catalog.mem_stateAt_revisions hr)
  obtain ⟨hpaths, hmem⟩ := mapM_fileState hfiles
  have hsorted := ascendingByPath_mergeSort (hpaths ▸ h.nodup_stateAt projectId k.commitId)
  refine ⟨⟨projectId, k.commitId, k.sequenceNumber, _⟩, ⟨rfl, rfl, rfl, hsorted, fun f => ?_⟩, ?_⟩
  · rw [List.mem_mergeSort, hmem, LiveAt]
  · intro boundary hfound
    have hfilesOf : perform (filesOf (s.catalog.stateAt projectId k.commitId)) s =
        (.ok (files.mergeSort fun a b => decide (a.path ≤ b.path)), s) :=
      perform_bind_ok (perform_lift_ok hfiles s)
    rw [resolveState, perform_bind_ok (perform_resolveBoundary_some hfound),
      perform_bind_ok (perform_askCatalog_ok rfl), perform_bind_ok hfilesOf]
    rfl

theorem Lists.get?_eq_some_iff {state : ProjectState} (hl : Lists c projectId k state)
    (h : Catalog.HistorySound c) :
    state.get? path = some f ↔ ∃ r, c.fileAt? projectId path k.commitId = some r ∧ r.fileState = .ok f := by
  rw [ProjectState.get?_eq_some_iff hl.ascending, hl.mem_iff]
  constructor
  · rintro ⟨⟨r, hr, hf⟩, rfl⟩
    exact ⟨r, (reads_of_fileState hf).path ▸ h.mem_stateAt_iff.mp hr, hf⟩
  · rintro ⟨r, hr, hf⟩
    have hpath := h.fileAt?_path hr
    exact ⟨⟨r, h.mem_stateAt_iff.mpr (hpath ▸ hr), hf⟩, (reads_of_fileState hf).path.trans hpath⟩

theorem Lists.exists_get? {state : ProjectState} (hl : Lists c projectId k state) (h : Catalog.HistorySound c)
    (hcontent : Catalog.ContentSound c) {r : Catalog.Revision}
    (hr : c.fileAt? projectId path k.commitId = some r) : ∃ f, state.get? path = some f ∧ r.fileState = .ok f := by
  obtain ⟨f, hf⟩ := h.exists_fileState hcontent (h.fileAt?_mem hr)
  exact ⟨f, (hl.get?_eq_some_iff h).mpr ⟨r, hr, hf⟩, hf⟩

theorem Lists.get?_eq_none_iff {state : ProjectState} (hl : Lists c projectId k state) (h : Catalog.HistorySound c)
    (hcontent : Catalog.ContentSound c) :
    state.get? path = none ↔ c.fileAt? projectId path k.commitId = none := by
  constructor
  · intro hnone
    refine Option.eq_none_iff_forall_ne_some.mpr fun r hr => ?_
    obtain ⟨f, hf, -⟩ := hl.exists_get? h hcontent hr
    cases hnone.symm.trans hf
  · intro hnone
    refine Option.eq_none_iff_forall_ne_some.mpr fun f hf => ?_
    obtain ⟨r, hr, -⟩ := (hl.get?_eq_some_iff h).mp hf
    cases hnone.symm.trans hr

end Depot.Service
