import Depot.Proofs.Catalog.Quiet
import Depot.Proofs.Catalog.Snapshot

/-!
# The past of a catalog

- `Later`: chunks, commits and revisions are only added, and commits that are added come behind all others.
  Requests leave every catalog so (`later_after`).
- `SamePast`: what was at boundaries up to the last commit is still there.
- `SameRows`, `SameProject`: what a request leaves that adds to no log, and of projects that it does not write to.
-/

namespace Depot.Catalog

open Content Time

variable {c next d : Catalog} {projectId boundary : Int} {path : String}

/-- The greatest number of a commit so far. -/
def lastCommitId (c : Catalog) : Int := (greatest? (c.commits.map CommitSummary.commitId)).getD 0

theorem HistorySound.lastCommitId_eq (h : HistorySound c) : c.lastCommitId = c.commits.length := by
  have := h.commitIds.next_eq
  rw [List.length_map] at this
  rw [lastCommitId]
  omega

/-- The revisions that commits of a project have made. -/
def revisionsOf (c : Catalog) (projectId : Int) : List Revision :=
  c.revisions.filter fun r => r.projectId == projectId

/-! ### States that see the same revisions -/

theorem stateAt_congr (h : next.revisions.filter (isWithin projectId boundary) =
      c.revisions.filter (isWithin projectId boundary)) :
    next.stateAt projectId boundary = c.stateAt projectId boundary := by
  simp only [stateAt, h]

theorem fileAt?_congr (h : next.revisions.filter (isWithin projectId boundary) =
      c.revisions.filter (isWithin projectId boundary)) (path : String) :
    next.fileAt? projectId path boundary = c.fileAt? projectId path boundary := by
  have hscope (d : Catalog) : d.revisions.filter (fun r => isWithin projectId boundary r && r.path == path) =
      (d.revisions.filter (isWithin projectId boundary)).filter fun r => r.path == path := by
    rw [List.filter_filter]
    exact List.filter_congr fun r _ => Bool.and_comm _ _
  rw [fileAt?, fileAt?, hscope, hscope, h]

/-! ### Later catalogs -/

/-- A catalog later on: rows are added, and only commits behind all others and revisions of such commits. -/
structure Later (c next : Catalog) : Prop where
  chunks : c.chunks <+: next.chunks
  commits : ∃ added, next.commits = c.commits ++ added ∧ ∀ k ∈ added, (c.commits.length : Int) < k.commitId
  revisions : ∃ rows, next.revisions = c.revisions ++ rows ∧ ∀ r ∈ rows, (c.commits.length : Int) < r.commitId

/-- Two catalogs have the same log. -/
structure SameLog (c next : Catalog) : Prop where
  commits : next.commits = c.commits
  revisions : next.revisions = c.revisions

theorem SameLog.refl (c : Catalog) : SameLog c c := ⟨rfl, rfl⟩

theorem SameLog.later (h : SameLog c next) (hchunks : c.chunks <+: next.chunks) : Later c next where
  chunks := hchunks
  commits := ⟨[], by rw [h.commits, List.append_nil], List.forall_mem_nil _⟩
  revisions := ⟨[], by rw [h.revisions, List.append_nil], List.forall_mem_nil _⟩

theorem Later.refl (c : Catalog) : Later c c := (SameLog.refl c).later (List.prefix_refl _)

theorem Later.trans (h : Later c next) (hnext : Later next d) : Later c d := by
  obtain ⟨commits, hcommits, hbehind⟩ := h.commits
  obtain ⟨rows, hrows, hnew⟩ := h.revisions
  obtain ⟨commits', hcommits', hbehind'⟩ := hnext.commits
  obtain ⟨rows', hrows', hnew'⟩ := hnext.revisions
  have hlength : c.commits.length ≤ next.commits.length := by simp [hcommits]
  refine ⟨h.chunks.trans hnext.chunks, ⟨commits ++ commits', ?_, fun k hk => ?_⟩, ⟨rows ++ rows', ?_, fun r hr => ?_⟩⟩
  · rw [hcommits', hcommits, List.append_assoc]
  · rcases List.mem_append.mp hk with hk | hk
    · exact hbehind k hk
    · have := hbehind' k hk
      omega
  · rw [hrows', hrows, List.append_assoc]
  · rcases List.mem_append.mp hr with hr | hr
    · exact hnew r hr
    · have := hnew' r hr
      omega

theorem later_withCommit {commit : CommitSummary} {rows : List Revision} (hmade : MadeBy commit rows)
    (hid : commit.commitId = c.commits.length + 1) : Later c (c.withCommit commit rows) := by
  refine ⟨List.prefix_refl _, ⟨[commit], rfl, fun k hk => ?_⟩, ⟨rows, rfl, fun r hr => ?_⟩⟩
  · rw [List.mem_singleton.mp hk]
    omega
  · rw [(hmade r hr).2]
    omega

theorem later_step (hstep : Step c next) : Later c next := by
  cases hstep with
  | promoted can whole composes => exact SameLog.later ⟨rfl, rfl⟩ (List.prefix_append _ _)
  | founded =>
    refine ⟨List.prefix_refl _, ⟨_, rfl, fun k hk => ?_⟩, ⟨[], (List.append_nil _).symm, List.forall_mem_nil _⟩⟩
    rw [List.mem_singleton.mp hk]
    exact Int.lt_succ _
  | committed project complete => exact later_withCommit madeBy_rowsFrom rfl
  | restored project known newest planned => exact later_withCommit madeBy_rowsFrom rfl
  | _ => exact SameLog.later ⟨rfl, rfl⟩ (List.prefix_refl _)

theorem later_after (c : Catalog) (requests : List Request) : Later c (c.after requests) :=
  after_induction (fun _ _ hstep h => h.trans (later_step hstep)) (.refl c) requests

theorem Later.within_eq (h : Later c next) (projectId : Int) (hpast : boundary ≤ c.commits.length) :
    next.revisions.filter (isWithin projectId boundary) = c.revisions.filter (isWithin projectId boundary) := by
  obtain ⟨rows, hrows, hnew⟩ := h.revisions
  have hnone : rows.filter (isWithin projectId boundary) = [] := by
    refine List.filter_eq_nil_iff.mpr fun r hr => ?_
    have := hnew r hr
    simp only [isWithin, Bool.and_eq_true, decide_eq_true_eq]
    omega
  rw [hrows, List.filter_append, hnone, List.append_nil]

theorem Later.commitsOf_eq (h : Later c next) (projectId : Int) (hpast : boundary ≤ c.commits.length) :
    ((next.commitsOf projectId).filter fun k => decide (k.commitId ≤ boundary)) =
      (c.commitsOf projectId).filter fun k => decide (k.commitId ≤ boundary) := by
  obtain ⟨added, hadded, hbehind⟩ := h.commits
  have hnone :
      (added.filter fun k => k.projectId == projectId).filter (fun k => decide (k.commitId ≤ boundary)) = [] := by
    refine List.filter_eq_nil_iff.mpr fun k hk => ?_
    have := hbehind k (List.mem_filter.mp hk).1
    simp only [decide_eq_true_eq]
    omega
  rw [commitsOf, commitsOf, hadded, List.filter_append, List.filter_append, hnone, List.append_nil]

theorem Later.commitRevisions_eq (h : Later c next) {commitId : Int} (hpast : commitId ≤ c.commits.length) :
    next.commitRevisions commitId = c.commitRevisions commitId := by
  obtain ⟨rows, hrows, hnew⟩ := h.revisions
  have hnone : rows.filter (fun r => r.commitId == commitId) = [] := by
    refine List.filter_eq_nil_iff.mpr fun r hr => ?_
    have := hnew r hr
    simp only [beq_iff_eq]
    omega
  rw [commitRevisions, commitRevisions, hrows, List.filter_append, hnone, List.append_nil]

theorem Later.commit?_eq (h : Later c next) {commitId : Int} {k : CommitSummary}
    (hfound : c.commit? projectId commitId = some k) : next.commit? projectId commitId = some k := by
  obtain ⟨added, hadded, _⟩ := h.commits
  rw [commit?] at hfound ⊢
  rw [hadded, List.find?_append, hfound]
  rfl

theorem Later.commitBySequence?_eq (h : Later c next) {sequence : Int} {k : CommitSummary}
    (hfound : c.commitBySequence? projectId sequence = some k) :
    next.commitBySequence? projectId sequence = some k := by
  obtain ⟨added, hadded, _⟩ := h.commits
  rw [commitBySequence?] at hfound ⊢
  rw [hadded, List.find?_append, hfound]
  rfl

/-! ### What was before the last commit -/

/-- All rows of a catalog are in another one, and at boundaries up to its last commit nothing is different. -/
structure SamePast (c next : Catalog) : Prop where
  chunks : c.chunks <+: next.chunks
  commits : c.commits <+: next.commits
  revisions : c.revisions <+: next.revisions
  states : ∀ projectId, ∀ boundary ≤ c.lastCommitId, next.stateAt projectId boundary = c.stateAt projectId boundary
  files : ∀ projectId path, ∀ boundary ≤ c.lastCommitId,
    next.fileAt? projectId path boundary = c.fileAt? projectId path boundary
  log : ∀ projectId, ∀ boundary ≤ c.lastCommitId,
    ((next.commitsOf projectId).filter fun k => decide (k.commitId ≤ boundary)) =
      (c.commitsOf projectId).filter fun k => decide (k.commitId ≤ boundary)
  written : ∀ projectId, ∀ boundary ≤ c.lastCommitId,
    next.revisions.filter (isWithin projectId boundary) = c.revisions.filter (isWithin projectId boundary)

theorem HistorySound.samePast (h : HistorySound c) (hlater : Later c next) : SamePast c next := by
  have hwritten : ∀ projectId, ∀ boundary ≤ c.lastCommitId,
      next.revisions.filter (isWithin projectId boundary) = c.revisions.filter (isWithin projectId boundary) :=
    fun projectId boundary hpast => hlater.within_eq projectId (h.lastCommitId_eq ▸ hpast)
  obtain ⟨added, hadded, _⟩ := hlater.commits
  obtain ⟨rows, hrows, _⟩ := hlater.revisions
  exact {
    chunks := hlater.chunks
    commits := hadded ▸ List.prefix_append _ _
    revisions := hrows ▸ List.prefix_append _ _
    states := fun projectId boundary hpast => stateAt_congr (hwritten projectId boundary hpast)
    files := fun projectId path boundary hpast => fileAt?_congr (hwritten projectId boundary hpast) path
    log := fun projectId boundary hpast => hlater.commitsOf_eq projectId (h.lastCommitId_eq ▸ hpast)
    written := hwritten }

/-! ### Projects that are not written to -/

/-- The project to whose log a request can add; a new project is numbered behind all others. -/
def Request.logOf? (c : Catalog) : Request → Option Int
  | createProject _ _ _ _ => some (c.projects.length + 1)
  | createCommit draft => some draft.projectId
  | restoreCommit projectId _ _ _ _ => some projectId
  | _ => none

/-- Two catalogs have the same projects, the same commits and the same revisions. -/
structure SameRows (c next : Catalog) : Prop extends SameLog c next where
  projects : next.projects = c.projects

theorem SameRows.refl (c : Catalog) : SameRows c c := ⟨.refl c, rfl⟩

theorem SameRows.trans (h : SameRows c d) (hnext : SameRows d next) : SameRows c next :=
  ⟨⟨hnext.commits.trans h.commits, hnext.revisions.trans h.revisions⟩, hnext.projects.trans h.projects⟩

theorem sameRows_answer {r : Request} (h : r.logOf? c = none) : SameRows c (c.answer r).2 := by
  have hframe := framed c r
  generalize (c.answer r).2 = next at hframe
  cases hframe with
  | founded | committed | restored => cases h
  | _ => exact ⟨⟨rfl, rfl⟩, rfl⟩

/-- A project has the same commits, the same revisions and the same state at every boundary. -/
structure SameProject (projectId : Int) (c next : Catalog) : Prop where
  commits : next.commitsOf projectId = c.commitsOf projectId
  revisions : next.revisionsOf projectId = c.revisionsOf projectId
  states : ∀ boundary, next.stateAt projectId boundary = c.stateAt projectId boundary
  files : ∀ path boundary, next.fileAt? projectId path boundary = c.fileAt? projectId path boundary

theorem SameProject.of_rows (hcommits : next.commitsOf projectId = c.commitsOf projectId)
    (hrevisions : next.revisionsOf projectId = c.revisionsOf projectId) : SameProject projectId c next := by
  have hscope (d : Catalog) (boundary : Int) : d.revisions.filter (isWithin projectId boundary) =
      (d.revisionsOf projectId).filter fun r => decide (r.commitId ≤ boundary) := by
    rw [revisionsOf, List.filter_filter]
    exact List.filter_congr fun r _ => Bool.and_comm _ _
  have hwithin (boundary : Int) : next.revisions.filter (isWithin projectId boundary) =
      c.revisions.filter (isWithin projectId boundary) := by
    rw [hscope, hscope, hrevisions]
  exact ⟨hcommits, hrevisions, fun boundary => stateAt_congr (hwithin boundary),
    fun path boundary => fileAt?_congr (hwithin boundary) path⟩

theorem sameProject_withCommit {commit : CommitSummary} {rows : List Revision} (hmade : MadeBy commit rows)
    (hne : commit.projectId ≠ projectId) : SameProject projectId c (c.withCommit commit rows) := by
  have hnone : rows.filter (fun r => r.projectId == projectId) = [] := by
    refine List.filter_eq_nil_iff.mpr fun r hr => ?_
    simpa [(hmade r hr).1] using hne
  refine .of_rows (commitsOf_append_of_ne hne) ?_
  rw [revisionsOf, withCommit, List.filter_append, hnone, List.append_nil, revisionsOf]

/-- **A request leaves every project that it does not write to.** -/
theorem sameProject_answer {r : Request} (hne : r.logOf? c ≠ some projectId) :
    SameProject projectId c (c.answer r).2 := by
  have hother {p : Int} (h : some p ≠ some projectId) : p ≠ projectId := fun heq => h (congrArg some heq)
  have hframe := framed c r
  generalize (c.answer r).2 = next at hframe
  cases hframe with
  | founded => exact .of_rows (commitsOf_append_of_ne (hother hne)) rfl
  | committed | restored => exact sameProject_withCommit madeBy_rowsFrom (hother hne)
  | _ => exact .of_rows rfl rfl

end Depot.Catalog
