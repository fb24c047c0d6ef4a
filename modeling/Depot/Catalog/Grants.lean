import Depot.Catalog.Commits

/-!
# Who may do what

- A user has at most one grant on a project and at most one on a team; granting `none` removes it.
- `projectAccess`: the higher of the project's own grant and what the grant on its team gives.
-/

namespace Depot.Catalog

open Time

/-- The number granted to a user on a project, 0 without a grant. -/
def projectLevel (c : Catalog) (userId : String) (projectId : Int) : Int :=
  ((c.projectGrants.find? fun g => g.userId == userId && g.projectId == projectId).map ProjectGrant.level).getD 0

/-- The number granted to a user on a team, 0 without a grant. -/
def teamLevel (c : Catalog) (userId teamId : String) : Int :=
  ((c.teamGrants.find? fun g => g.userId == userId && g.teamId == teamId).map TeamGrant.level).getD 0

def teamAccess (c : Catalog) (userId teamId : String) : AccessLevel := .ofCode (c.teamLevel userId teamId)

/-- The level that a user has on a project. -/
def projectAccess (c : Catalog) (userId : String) (projectId : Int) : AccessLevel :=
  let own := AccessLevel.ofCode (c.projectLevel userId projectId)
  let team := ((c.project? projectId).map fun p => c.teamAccess userId p.teamId).getD .none
  max own (.ofTeam team)

/-- The projects that a user may read, in the order in which they were made. -/
def listProjects (c : Catalog) (userId : String) : List Project :=
  c.projects.filter fun p =>
    decide (1 ≤ c.projectLevel userId p.projectId) || decide (1 ≤ c.teamLevel userId p.teamId)

/-- The user may write somewhere. -/
def canUpload (c : Catalog) (userId : String) : Bool :=
  let enough := (AccessLevel.write.code : Int)
  c.projectGrants.any (fun g => g.userId == userId && decide (enough ≤ g.level)) ||
    c.teamGrants.any fun g => g.userId == userId && decide (enough ≤ g.level)

/-- Grants a user a level on a project that exists; `none` removes the grant. -/
def setProjectPermission (c : Catalog) (userId : String) (projectId : Int) (level : AccessLevel)
    (updatedAt : DateTime) : Except StoreError (Unit × Catalog) :=
  let others := c.projectGrants.filter fun g => !(g.userId == userId && g.projectId == projectId)
  if level = .none then .ok ((), { c with projectGrants := others })
  else if (c.project? projectId).isNone then .error (Violation.foreignKey.classify s!"project {projectId}")
  else .ok ((), { c with projectGrants := others ++ [⟨userId, projectId, level.code, updatedAt⟩] })

/-- Grants a user a level on a team; `none` removes the grant. -/
def setTeamPermission (c : Catalog) (userId teamId : String) (level : AccessLevel) (updatedAt : DateTime) :
    Catalog :=
  let others := c.teamGrants.filter fun g => !(g.userId == userId && g.teamId == teamId)
  if level = .none then { c with teamGrants := others }
  else { c with teamGrants := others ++ [⟨userId, teamId, level.code, updatedAt⟩] }

end Depot.Catalog
