import Depot.Proofs.Catalog.Frame

/-!
# Requests that leave content alone

Most requests record no block and register no chunk, and those that grant rights grant them to one user. What
they leave as it was: blocks, chunks and staged chunks, and the rights of all other users.
-/

namespace Depot.Catalog

open Time

variable {c next : Catalog} {user who : String} {projectId : Int}

/-- A request leaves blocks and chunks alone, and rights of all users but one. -/
def Request.QuietFor (user : String) : Request → Prop
  | .putBlock _ | .deleteBlock _ | .registerChunk _ _ => False
  | .createProject _ _ createdBy _ => createdBy = user
  | .setProjectPermission userId _ _ _ | .setTeamPermission userId _ _ _ => userId = user
  | _ => True

/-- A request that only reads. -/
def Request.IsRead : Request → Prop
  | .putBlock _ | .deleteBlock _ | .registerChunk _ _ | .createProject _ _ _ _ | .createCommit _
  | .restoreCommit _ _ _ _ _ | .setProjectPermission _ _ _ _ | .setTeamPermission _ _ _ _ | .createToken _
  | .touchToken _ _ | .revokeToken _ _ | .setAdminMarker _ | .migrate => False
  | _ => True

theorem Request.IsRead.quietFor {r : Request} (h : r.IsRead) (user : String) : r.QuietFor user := by
  cases r <;> first | exact trivial | cases h

theorem answer_of_isRead {r : Request} (h : r.IsRead) : (c.answer r).2 = c := by
  cases r <;> first | rfl | cases h

/-! ### Content -/

/-- Two catalogs have the same blocks and the same chunks. -/
structure SameContent (c next : Catalog) : Prop where
  blocks : next.blocks = c.blocks
  chunks : next.chunks = c.chunks
  staged : next.staged = c.staged

theorem SameContent.refl (c : Catalog) : SameContent c c := ⟨rfl, rfl, rfl⟩

theorem SameContent.trans {d : Catalog} (h : SameContent c d) (hnext : SameContent d next) : SameContent c next :=
  ⟨hnext.blocks.trans h.blocks, hnext.chunks.trans h.chunks, hnext.staged.trans h.staged⟩

theorem sameContent_answer {r : Request} (h : r.QuietFor user) : SameContent c (c.answer r).2 := by
  have hframe := framed c r
  generalize (c.answer r).2 = next at hframe
  cases hframe with
  | recorded | removed | registered => cases h
  | _ => exact ⟨rfl, rfl, rfl⟩

/-! ### Rights -/

/-- A user has the same grants in two catalogs, and the projects of one are those of the other. -/
structure SameRights (user : String) (c next : Catalog) : Prop where
  onProjects : (next.projectGrants.filter fun g => g.userId == user) = c.projectGrants.filter fun g => g.userId == user
  onTeams : (next.teamGrants.filter fun g => g.userId == user) = c.teamGrants.filter fun g => g.userId == user
  projects : ∀ projectId project, c.project? projectId = some project → next.project? projectId = some project

theorem SameRights.refl (user : String) (c : Catalog) : SameRights user c c := ⟨rfl, rfl, fun _ _ h => h⟩

theorem SameRights.trans {d : Catalog} (h : SameRights user c d) (hnext : SameRights user d next) :
    SameRights user c next :=
  ⟨hnext.onProjects.trans h.onProjects, hnext.onTeams.trans h.onTeams, fun p project hp =>
    hnext.projects p project (h.projects p project hp)⟩

theorem filter_grants {α : Type} {owner : α → String} {grants granted : List α} {other : α → Bool} (hne : user ≠ who)
    (hgranted : ∀ g ∈ granted, owner g = who) :
    (((grants.filter fun g => !(owner g == who && other g)) ++ granted).filter fun g => owner g == user) =
      grants.filter fun g => owner g == user := by
  have hnone : granted.filter (fun g => owner g == user) = [] := by
    apply List.filter_eq_nil_iff.mpr
    intro g hg
    simp [hgranted g hg, Ne.symm hne]
  rw [List.filter_append, hnone, List.append_nil, List.filter_filter]
  apply List.filter_congr
  intro g _
  by_cases hg : owner g = user
  · simp [hg, hne]
  · simp [hg]

theorem sameRights_withProject (teamId title : String) (createdAt : DateTime) (hne : user ≠ who) :
    SameRights user c (c.withProject teamId title who createdAt) where
  onProjects := by simp [withProject, Ne.symm hne]
  onTeams := rfl
  projects projectId project h := by
    rw [project?] at h ⊢
    simp [withProject, List.find?_append, h]

theorem sameRights_registerChunk (c : Catalog) (uploader : String) (k : Chunk) (user : String) :
    SameRights user c (c.registerChunk uploader k).2 := by
  obtain ⟨_, _, h⟩ := registerChunk_eq c uploader k
  rw [h]
  exact ⟨rfl, rfl, fun _ _ h => h⟩

theorem sameRights_answer {r : Request} (h : r.QuietFor who) (hne : user ≠ who) :
    SameRights user c (c.answer r).2 := by
  have hframe := framed c r
  generalize (c.answer r).2 = next at hframe
  cases hframe with
  | recorded | removed | registered => cases h
  | @founded teamId title createdBy createdAt =>
    rw [show createdBy = who from h]
    exact sameRights_withProject teamId title createdAt hne
  | @grantedOnProject userId _ _ _ granted own =>
    have hother : user ≠ userId := by rwa [show userId = who from h]
    exact ⟨filter_grants hother own, rfl, fun _ _ h => h⟩
  | @grantedOnTeam userId _ _ _ granted own =>
    have hother : user ≠ userId := by rwa [show userId = who from h]
    exact ⟨rfl, filter_grants hother own, fun _ _ h => h⟩
  | _ => exact ⟨rfl, rfl, fun _ _ h => h⟩

theorem SameRights.canUpload_eq (h : SameRights user c next) : next.canUpload user = c.canUpload user := by
  have hprojects : ∀ d : Catalog,
      (d.projectGrants.any fun g => g.userId == user && decide ((AccessLevel.write.code : Int) ≤ g.level)) =
        (d.projectGrants.filter fun g => g.userId == user).any fun g =>
          decide ((AccessLevel.write.code : Int) ≤ g.level) :=
    fun d => by rw [List.any_filter]
  have hteams : ∀ d : Catalog,
      (d.teamGrants.any fun g => g.userId == user && decide ((AccessLevel.write.code : Int) ≤ g.level)) =
        (d.teamGrants.filter fun g => g.userId == user).any fun g =>
          decide ((AccessLevel.write.code : Int) ≤ g.level) :=
    fun d => by rw [List.any_filter]
  rw [canUpload, canUpload, hprojects, hteams, hprojects, hteams, h.onProjects, h.onTeams]

theorem SameRights.projectAccess_eq (h : SameRights user c next) (hproject : (c.project? projectId).isSome) :
    next.projectAccess user projectId = c.projectAccess user projectId := by
  obtain ⟨project, hp⟩ := Option.isSome_iff_exists.mp hproject
  have hlevel : ∀ d : Catalog, d.projectLevel user projectId =
      (((d.projectGrants.filter fun g => g.userId == user).find? fun g => g.projectId == projectId).map
        ProjectGrant.level).getD 0 := by
    intro d
    simp only [projectLevel, List.find?_filter, Bool.decide_and, Bool.decide_eq_true]
  have hteam : ∀ (d : Catalog) (teamId : String), d.teamLevel user teamId =
      (((d.teamGrants.filter fun g => g.userId == user).find? fun g => g.teamId == teamId).map
        TeamGrant.level).getD 0 := by
    intro d teamId
    simp only [teamLevel, List.find?_filter, Bool.decide_and, Bool.decide_eq_true]
  rw [projectAccess, projectAccess, hlevel, hlevel, h.onProjects, hp, h.projects _ _ hp]
  simp only [Option.map_some, Option.getD_some, teamAccess, hteam, h.onTeams]

end Depot.Catalog
