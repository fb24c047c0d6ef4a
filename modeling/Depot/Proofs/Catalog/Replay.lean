import Depot.Proofs.Catalog.Snapshot
import Mathlib.Data.List.Pairwise

/-!
# A snapshot is the replay of the log

- `replay`: the commits of a project, oldest first, carried out one revision after another on no files.
- `replayed_revisions`: the revisions that a replay goes through are those within the boundary, in the order of
  their rows. It rests on commits, their numbers and revisions all being in one order.
- What the replay ends with is the state at the boundary, in every catalog that requests have made.
-/

namespace Depot.Catalog

open Content Time

variable {c : Catalog} {projectId boundary : Int} {path : String}

/-! ### Replaying -/

/-- One revision carried out: its path has it from now on, or nothing if it is a deletion. -/
def Revision.applyTo (files : String → Option Revision) (r : Revision) : String → Option Revision :=
  fun path => if path = r.path then (if r.isDelete then none else some r) else files path

/-- The commits of a project up to a boundary, ascending by their sequence numbers. -/
def commitsWithin (c : Catalog) (projectId boundary : Int) : List CommitSummary :=
  ((c.commitsOf projectId).filter fun k => decide (k.commitId ≤ boundary)).mergeSort fun a b =>
    decide (a.sequenceNumber ≤ b.sequenceNumber)

/-- What each path has after the commits of a project up to a boundary, each with its revisions in order. -/
def replay (c : Catalog) (projectId boundary : Int) : String → Option Revision :=
  (c.commitsWithin projectId boundary).foldl
    (fun files k => (c.commitRevisions k.commitId).foldl Revision.applyTo files) fun _ => none

theorem foldl_applyTo (rows : List Revision) (files : String → Option Revision) (path : String) :
    rows.foldl Revision.applyTo files path =
      match lastRevisionAt? rows path with
      | some r => if r.isDelete then none else some r
      | none => files path := by
  induction rows using List.reverseRecOn with
  | nil => rfl
  | append_singleton rows last ih =>
    rw [List.foldl_append, List.foldl_cons, List.foldl_nil, Revision.applyTo, lastRevisionAt?, List.reverse_concat,
      List.find?_cons]
    by_cases hpath : path = last.path
    · simp [hpath]
    · have hne : (last.path == path) = false := by simpa using Ne.symm hpath
      rw [if_neg hpath, hne]
      exact ih

/-! ### The order of a replay -/

theorem HistorySound.commitsWithin_eq (h : HistorySound c) (projectId boundary : Int) :
    c.commitsWithin projectId boundary = (c.commitsOf projectId).filter fun k => decide (k.commitId ≤ boundary) := by
  refine List.mergeSort_of_pairwise (((h.ascending_commitsOf projectId).sublist List.filter_sublist).imp fun hlt => ?_)
  simp only [decide_eq_true_eq]
  omega

theorem HistorySound.revision_lt (h : HistorySound c) {r s : Revision} (hr : r ∈ c.revisions)
    (hs : s ∈ c.revisions) (hlt : r.commitId < s.commitId) : r.revisionId < s.revisionId := by
  have hordered := (List.pairwise_map.mp h.ordered).and h.ascending_revisions
  refine List.Pairwise.forall_of_forall_of_flip
    (R := fun r s : Revision => r.commitId < s.commitId → r.revisionId < s.revisionId)
    (fun x _ hx => absurd hx (Int.lt_irrefl _)) (hordered.imp fun hab _ => hab.2) (hordered.imp ?_) hr hs hlt
  intro a b hab hlt
  exact absurd hab.1 (by omega)

/-- **A replay goes through the revisions within its boundary in the order of their rows.** -/
theorem HistorySound.replayed_revisions (h : HistorySound c) (projectId boundary : Int) :
    (c.commitsWithin projectId boundary).flatMap (fun k => c.commitRevisions k.commitId) =
      c.revisions.filter (isWithin projectId boundary) := by
  rw [h.commitsWithin_eq]
  have hwithin : (c.revisions.filter (isWithin projectId boundary)).Pairwise fun r s => r.revisionId < s.revisionId :=
    h.ascending_revisions.sublist List.filter_sublist
  have hreplayed : (((c.commitsOf projectId).filter fun k => decide (k.commitId ≤ boundary)).flatMap
      fun k => c.commitRevisions k.commitId).Pairwise fun r s => r.revisionId < s.revisionId := by
    refine List.pairwise_flatMap.mpr ⟨fun k _ => h.ascending_revisions.sublist List.filter_sublist, ?_⟩
    refine ((h.ascending_commitsOf projectId).sublist List.filter_sublist).imp fun {a b} hlt r hr s hs => ?_
    simp only [commitRevisions, List.mem_filter, beq_iff_eq] at hr hs
    exact h.revision_lt hr.1 hs.1 (by omega)
  have hsame : ∀ r, r ∈ ((c.commitsOf projectId).filter fun k => decide (k.commitId ≤ boundary)).flatMap
      (fun k => c.commitRevisions k.commitId) ↔ r ∈ c.revisions.filter (isWithin projectId boundary) := by
    intro r
    simp only [List.mem_flatMap, List.mem_filter, mem_commitsOf, commitRevisions, decide_eq_true_eq, beq_iff_eq,
      isWithin, Bool.and_eq_true]
    constructor
    · rintro ⟨k, ⟨⟨hk, hproject⟩, hle⟩, hr, hcommit⟩
      -- The commit of a revision is the only one with its number, so it is of the same project.
      obtain ⟨k', hk', hid, hown⟩ := h.attached r hr
      have hdistinct : (c.commits.map CommitSummary.commitId).Nodup := h.commitIds.ascending.imp fun hlt => by omega
      have hkk : k' = k := List.inj_on_of_nodup_map hdistinct hk' hk (by omega)
      subst hkk
      exact ⟨hr, by omega, by omega⟩
    · rintro ⟨hr, hproject, hle⟩
      obtain ⟨k, hk, hid, hown⟩ := h.attached r hr
      exact ⟨k, ⟨⟨hk, by omega⟩, by omega⟩, hr, by omega⟩
  exact eq_of_ascending_by Revision.revisionId hreplayed hwithin hsame

theorem HistorySound.replay_eq_fileAt? (h : HistorySound c) (projectId boundary : Int) (path : String) :
    c.replay projectId boundary path = c.fileAt? projectId path boundary := by
  rw [replay, ← List.foldl_flatMap, h.replayed_revisions, foldl_applyTo, h.fileAt?_eq]
  have hlast : lastRevisionAt? (c.revisions.filter (isWithin projectId boundary)) path =
      (c.revisionsAt projectId path boundary).getLast? := by
    rw [lastRevisionAt?, ← List.getLast?_filter, List.filter_filter, revisionsAt]
    simp only [Bool.and_comm]
  rw [hlast]
  cases (c.revisionsAt projectId path boundary).getLast? with
  | none => rfl
  | some r => cases hdelete : r.isDelete <;> simp [Option.filter, hdelete]

/-! ### The order inside a commit -/

/-- The revisions of a commit that comes behind all others are the rows it was made with, in their order. -/
theorem commitRevisions_withCommit (h : HistorySound c) {commit : CommitSummary} {rows : List Revision}
    (hmade : MadeBy commit rows) (hnew : ∀ k ∈ c.commits, k.commitId < commit.commitId) :
    (c.withCommit commit rows).commitRevisions commit.commitId = rows := by
  have hold : c.revisions.filter (fun r => r.commitId == commit.commitId) = [] := by
    refine List.filter_eq_nil_iff.mpr fun r hr => ?_
    obtain ⟨k, hk, hid, _⟩ := h.attached r hr
    have := hnew k hk
    simp only [beq_iff_eq]
    omega
  have hown : rows.filter (fun r => r.commitId == commit.commitId) = rows :=
    List.filter_eq_self.mpr fun r hr => by simp [(hmade r hr).2]
  rw [commitRevisions, withCommit, List.filter_append, hold, hown, List.nil_append]

theorem HistorySound.commitRevisions_createCommit (h : HistorySound c) {draft : CommitDraft} {commit : CommitSummary}
    {next : Catalog} (hmade : c.createCommit draft = .ok (.committed commit, next)) :
    (next.commitRevisions commit.commitId).map (fun r => (r.path, r.contentHash, r.kind)) =
      draft.revisions.map fun d => (d.path, d.contentHash, d.kind.code) := by
  cases hproject : c.project? draft.projectId with
  | none =>
    obtain ⟨e, he⟩ := insertCommit_error draft.authorId draft.comment draft.revisions.length draft.createdAt
      hproject
    rw [createCommit, he] at hmade
    cases hmade
  | some project =>
    have hsome : (c.project? draft.projectId).isSome := by simp [hproject]
    rw [createCommit_eq c draft hsome] at hmade
    split at hmade
    · cases hmade
      have hnew : ∀ k ∈ c.commits, k.commitId < (c.commitOf draft).commitId :=
        (h.nextCommit_isNew hsome draft.authorId draft.comment draft.revisions.length draft.createdAt).1
      have hrows : MadeBy (c.commitOf draft) (c.rowsOf draft) := madeBy_rowsFrom
      rw [commitRevisions_withCommit h hrows hnew]
      exact revisions_rowsFrom
    · cases hmade

/-- **In a catalog that requests have made, a state of a project has every path at most once and is what the
project's commits up to the boundary make of no files, carried out by their sequence numbers and each in the
order of its list.** -/
theorem reachable_stateAt_eq_replay (requests : List Request) (projectId boundary : Int) :
    let c := Catalog.empty.after requests
    ((c.stateAt projectId boundary).map Revision.path).Nodup ∧
      lastRevisionAt? (c.stateAt projectId boundary) = c.replay projectId boundary ∧
      (∀ r, r ∈ c.stateAt projectId boundary ↔ c.replay projectId boundary r.path = some r) ∧
      ∀ draft commit next, c.createCommit draft = .ok (.committed commit, next) →
        (next.commitRevisions commit.commitId).map (fun r => (r.path, r.contentHash, r.kind)) =
          draft.revisions.map fun d => (d.path, d.contentHash, d.kind.code) := by
  intro c
  have h : HistorySound c := historySound_after requests
  refine ⟨h.nodup_stateAt projectId boundary, ?_, fun r => ?_, fun _ _ _ hmade => h.commitRevisions_createCommit hmade⟩
  · funext path
    rw [h.lastRevisionAt?_stateAt, h.replay_eq_fileAt?]
  · rw [h.replay_eq_fileAt?, h.mem_stateAt_iff]

end Depot.Catalog
