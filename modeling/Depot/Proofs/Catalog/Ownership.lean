import Depot.Proofs.Catalog.Past

/-!
# Whose rows a request adds

- `Grows`: rows are only added, and those that are added have a property.
- `AddsTo`: projects, commits and revisions are added to one project. A request adds to no other than the one whose
  log it adds to (`addsTo_answer`).
- Who makes a project owns it (`HistorySound.projectAccess_withProject`).
-/

namespace Depot.Catalog

open Time

variable {c d next : Catalog} {projectId : Int}

/-! ### Rows that are added -/

/-- Rows are added behind others, all of which have a property. -/
def Grows {α : Type} (property : α → Prop) (before after : List α) : Prop :=
  ∃ added, after = before ++ added ∧ ∀ row ∈ added, property row

section Grows

variable {α : Type} {property : α → Prop} {first second third : List α}

theorem Grows.refl (property : α → Prop) (rows : List α) : Grows property rows rows :=
  ⟨[], (List.append_nil rows).symm, List.forall_mem_nil _⟩

theorem grows_of_eq (h : second = first) : Grows property first second := h ▸ .refl property first

theorem Grows.trans (h : Grows property first second) (hnext : Grows property second third) :
    Grows property first third := by
  obtain ⟨added, rfl, hadded⟩ := h
  obtain ⟨more, rfl, hmore⟩ := hnext
  exact ⟨added ++ more, List.append_assoc _ _ _, List.forall_mem_append.mpr ⟨hadded, hmore⟩⟩

theorem grows_singleton (rows : List α) {row : α} (h : property row) : Grows property rows (rows ++ [row]) :=
  ⟨[row], rfl, List.forall_mem_singleton.mpr h⟩

end Grows

/-! ### Rows of projects -/

/-- Projects, commits and revisions are added that all belong to one project. -/
structure AddsTo (projectId : Int) (c next : Catalog) : Prop where
  projects : Grows (fun project : Project => project.projectId = projectId) c.projects next.projects
  commits : Grows (fun k : CommitSummary => k.projectId = projectId) c.commits next.commits
  revisions : Grows (fun r : Revision => r.projectId = projectId) c.revisions next.revisions

theorem SameRows.addsTo (h : SameRows c next) (projectId : Int) : AddsTo projectId c next :=
  ⟨grows_of_eq h.projects, grows_of_eq h.commits, grows_of_eq h.revisions⟩

theorem AddsTo.refl (projectId : Int) (c : Catalog) : AddsTo projectId c c := (SameRows.refl c).addsTo projectId

theorem AddsTo.trans (h : AddsTo projectId c d) (hnext : AddsTo projectId d next) : AddsTo projectId c next :=
  ⟨h.projects.trans hnext.projects, h.commits.trans hnext.commits, h.revisions.trans hnext.revisions⟩

theorem addsTo_withCommit {commit : CommitSummary} {rows : List Revision} (hmade : MadeBy commit rows)
    (hproject : commit.projectId = projectId) : AddsTo projectId c (c.withCommit commit rows) :=
  ⟨.refl _ _, grows_singleton _ hproject, rows, rfl, fun r hr => (hmade r hr).1.trans hproject⟩

theorem addsTo_withProject (c : Catalog) (teamId title creator : String) (createdAt : DateTime) :
    AddsTo (c.projects.length + 1) c (c.withProject teamId title creator createdAt) :=
  ⟨grows_singleton _ rfl, grows_singleton _ rfl, .refl _ _⟩

/-- **A request adds rows to no project but the one to whose log it adds.** -/
theorem addsTo_answer {r : Request} (h : r.logOf? c = some projectId) : AddsTo projectId c (c.answer r).2 := by
  have hframe := framed c r
  generalize (c.answer r).2 = next at hframe
  cases hframe with
  | idle => exact .refl projectId c
  | founded => exact Option.some.inj h ▸ addsTo_withProject c _ _ _ _
  | committed | restored => exact addsTo_withCommit madeBy_rowsFrom (Option.some.inj h)
  | _ => cases h

/-! ### Owners -/

theorem createProject_eq_row {teamId title creator : String} {createdAt : DateTime} {project : Project}
    (h : c.createProject teamId title creator createdAt = .ok (project, next)) :
    project = ⟨c.projects.length + 1, teamId, title, creator, createdAt⟩ := by
  unfold createProject at h
  split at h
  · cases h
  · cases h
    rfl

theorem max_owner (level : AccessLevel) : max .owner level = AccessLevel.owner := by
  cases level <;> rfl

theorem HistorySound.no_grant_new (h : HistorySound c) {g : ProjectGrant} (hg : g ∈ c.projectGrants) :
    g.projectId ≠ c.projects.length + 1 := by
  have hknown := h.projectIds.mem_iff.mp (isSome_project?_iff.mp (h.grants g hg))
  rw [List.length_map] at hknown
  omega

/-- **Who makes a project owns it.** -/
theorem HistorySound.projectAccess_withProject (h : HistorySound c) (teamId title creator : String)
    (createdAt : DateTime) :
    (c.withProject teamId title creator createdAt).projectAccess creator (c.projects.length + 1) = .owner := by
  have hnone (g : ProjectGrant) (hg : g ∈ c.projectGrants) :
      ¬(g.userId == creator && g.projectId == (c.projects.length + 1 : Int)) = true := by
    simp [h.no_grant_new hg]
  have hlevel : (c.withProject teamId title creator createdAt).projectLevel creator (c.projects.length + 1) =
      AccessLevel.owner.code := by
    simp [projectLevel, withProject, List.find?_append, List.find?_eq_none.mpr hnone]
  unfold projectAccess
  rw [hlevel]
  exact max_owner _

end Depot.Catalog
