import Depot.Proofs.Catalog.Ownership
import Mathlib.Logic.Function.Basic

/-!
# Rights and the grants they come from

- `GrantMade`: one grant that was made, with the project that its maker came to own. `grantsMade` lists those of
  a run by what its requests answer, without a look at the tables.
- `HoldsGrants`: a table has one row for each key, with the level that was granted last under the key.
- `GrantsHeld`: the tables of a catalog hold what was granted. Every request keeps this (`grantsHeld_answer`), and
  the three views of rights are read off it (`reachable_access`).
-/

namespace Depot

namespace AccessLevel

theorem le_iff {a b : AccessLevel} : a ≤ b ↔ a.code ≤ b.code := Iff.rfl

@[simp] theorem ofCode_code (level : AccessLevel) : ofCode level.code = level := by
  cases level <;> rfl

theorem read_le_ofCode {code : Int} : read ≤ ofCode code ↔ 1 ≤ code := by
  unfold ofCode
  split_ifs <;> simp only [le_iff, AccessLevel.code] <;> omega

theorem le_max_iff {a b level : AccessLevel} : level ≤ max a b ↔ level ≤ a ∨ level ≤ b := by
  cases a <;> cases b <;> cases level <;> decide

theorem read_le_ofTeam {level : AccessLevel} : read ≤ ofTeam level ↔ read ≤ level := by
  cases level <;> decide

end AccessLevel

namespace Catalog

open Time

variable {c : Catalog}

/-! ### Grants that were made -/

/-- A grant that was made. Granting `none` takes a grant away. -/
inductive GrantMade where
  /-- A project was made, whose maker came to own it. -/
  | founder (project : Project)
  | onProject (userId : String) (projectId : Int) (level : AccessLevel)
  | onTeam (userId teamId : String) (level : AccessLevel)

/-- What is granted on a project, under the user and the project. -/
def GrantMade.onProject? : GrantMade → Option ((String × Int) × AccessLevel)
  | founder project => some ((project.createdBy, project.projectId), .owner)
  | onProject userId projectId level => some ((userId, projectId), level)
  | onTeam _ _ _ => none

/-- What is granted on a team, under the user and the team. -/
def GrantMade.onTeam? : GrantMade → Option ((String × String) × AccessLevel)
  | onTeam userId teamId level => some ((userId, teamId), level)
  | _ => none

def GrantMade.project? : GrantMade → Option Project
  | founder project => some project
  | _ => none

/-- The grant that a request makes, by what it answers. -/
def Request.grantMade? : (r : Request) → Except StoreError r.Reply → Option GrantMade
  | .createProject _ _ _ _, .ok project => some (.founder project)
  | .setProjectPermission userId projectId level _, .ok _ => some (.onProject userId projectId level)
  | .setTeamPermission userId teamId level _, .ok _ => some (.onTeam userId teamId level)
  | _, _ => none

/-- The grants that requests make, one after another. -/
def grantsMade (c : Catalog) : List Request → List GrantMade
  | [] => []
  | r :: rest => (r.grantMade? (c.answer r).1).toList ++ (c.answer r).2.grantsMade rest

/-- The level that was granted last under a key, `none` where none was. -/
def lastLevel {κ : Type} [DecidableEq κ] (grants : List (κ × AccessLevel)) (key : κ) : AccessLevel :=
  ((grants.filter fun g => g.1 = key).getLast?.map Prod.snd).getD .none

/-- The level that a user was granted last on a project. -/
def lastOnProject (made : List GrantMade) (userId : String) (projectId : Int) : AccessLevel :=
  lastLevel (made.filterMap GrantMade.onProject?) (userId, projectId)

/-- The level that a user was granted last on a team. -/
def lastOnTeam (made : List GrantMade) (userId teamId : String) : AccessLevel :=
  lastLevel (made.filterMap GrantMade.onTeam?) (userId, teamId)

/-- The projects that were made, in their order. -/
def projectsMade (made : List GrantMade) : List Project := made.filterMap GrantMade.project?

/-- The level that a user's last grant on the team of a project gives on the project. -/
def impliedByTeam (made : List GrantMade) (userId : String) (projectId : Int) : AccessLevel :=
  match (projectsMade made).find? fun project => project.projectId == projectId with
  | none => .none
  | some project =>
    if .write ≤ lastOnTeam made userId project.teamId then .manage else lastOnTeam made userId project.teamId

theorem lastLevel_append {κ : Type} [DecidableEq κ] (grants : List (κ × AccessLevel)) (key : κ)
    (level : AccessLevel) :
    lastLevel (grants ++ [(key, level)]) = Function.update (lastLevel grants) key level := by
  funext other
  by_cases h : key = other
  · subst h
    simp [lastLevel]
  · simp [lastLevel, h, Ne.symm h]

/-! ### Tables of grants -/

section Table

variable {α κ : Type} {key : α → κ} {level : α → Int} {k : κ} {l : AccessLevel}

/-- The rows that a grant leaves under its key. -/
inductive Leaves (key : α → κ) (level : α → Int) (k : κ) : AccessLevel → List α → Prop where
  | nothing : Leaves key level k .none []
  | row {row : α} {l : AccessLevel} (hkey : key row = k) (hlevel : level row = l.code) :
    Leaves key level k l [row]

theorem Leaves.nodup {added : List α} (h : Leaves key level k l added) :
    (added.map key).Nodup ∧ ∀ g ∈ added, key g = k := by
  cases h with
  | nothing => simp
  | row hkey hlevel => simp [hkey]

variable [BEq κ] [LawfulBEq κ] {rows : List α} {granted : κ → AccessLevel}

theorem Leaves.found {added : List α} (h : Leaves key level k l added) :
    ((added.find? fun g => key g == k).map level).getD 0 = l.code := by
  cases h with
  | nothing => rfl
  | row hkey hlevel => simp [hkey, hlevel]

/-- A table has one row for each key, with the level that was granted under it, and no row where that is
`none`. -/
structure HoldsGrants (key : α → κ) (level : α → Int) (rows : List α) (granted : κ → AccessLevel) : Prop where
  once : (rows.map key).Nodup
  found : ∀ k, ((rows.find? fun g => key g == k).map level).getD 0 = (granted k).code

/-- **A grant takes the place of the one under its key.** -/
theorem HoldsGrants.regrant [DecidableEq κ] (h : HoldsGrants key level rows granted) {added : List α}
    (hadded : Leaves key level k l added) :
    HoldsGrants key level ((rows.filter fun g => !(key g == k)) ++ added) (Function.update granted k l) where
  once := by
    rw [List.map_append, List.nodup_append]
    refine ⟨h.once.sublist (List.filter_sublist.map key), hadded.nodup.1, ?_⟩
    intro kept hkept new hnew heq
    obtain ⟨g, hg, rfl⟩ := List.mem_map.mp hkept
    obtain ⟨a, ha, rfl⟩ := List.mem_map.mp hnew
    have hne := (List.mem_filter.mp hg).2
    simp [heq, hadded.nodup.2 a ha] at hne
  found other := by
    rw [List.find?_append]
    by_cases hk : other = k
    · subst hk
      have hnone : (rows.filter fun g => !(key g == other)).find? (fun g => key g == other) = none :=
        List.find?_eq_none.mpr fun g hg => by simpa using (List.mem_filter.mp hg).2
      rw [hnone, Option.none_or, Function.update_self]
      exact hadded.found
    · have hsame : (rows.filter fun g => !(key g == k)).find? (fun g => key g == other) =
          rows.find? fun g => key g == other := by
        rw [List.find?_filter]
        congr 1
        funext g
        by_cases hg : key g = other <;> simp [hg, hk]
      have hnone : added.find? (fun g => key g == other) = none :=
        List.find?_eq_none.mpr fun g hg => by simp [hadded.nodup.2 g hg, Ne.symm hk]
      rw [hsame, hnone, Option.or_none, Function.update_of_ne hk]
      exact h.found other

theorem HoldsGrants.grant_new [DecidableEq κ] (h : HoldsGrants key level rows granted) {row : α}
    (hnew : ∀ g ∈ rows, key g ≠ key row) (hlevel : level row = l.code) :
    HoldsGrants key level (rows ++ [row]) (Function.update granted (key row) l) := by
  have hkept : (rows.filter fun g => !(key g == key row)) = rows :=
    List.filter_eq_self.mpr fun g hg => by simp [hnew g hg]
  simpa only [hkept] using h.regrant (.row rfl hlevel)

theorem HoldsGrants.exists_row_iff (h : HoldsGrants key level rows granted) (p : κ → Prop) {least : Nat}
    (hpos : 0 < least) :
    (∃ g ∈ rows, p (key g) ∧ (least : Int) ≤ level g) ↔ ∃ k, p k ∧ least ≤ (granted k).code := by
  constructor
  · rintro ⟨g, hg, hp, hle⟩
    have honly : rows.find? (fun other => key other == key g) = some g :=
      find?_eq_some_of_only hg (by simp) fun other hother hsame =>
        List.inj_on_of_nodup_map h.once hother hg (by simpa using hsame)
    have hlevel : level g = (granted (key g)).code := by simpa [honly] using h.found (key g)
    exact ⟨key g, hp, by omega⟩
  · rintro ⟨k, hp, hle⟩
    have hfound := h.found k
    cases hrow : rows.find? fun g => key g == k with
    | none =>
      simp only [hrow, Option.map_none, Option.getD_none] at hfound
      omega
    | some g =>
      simp only [hrow, Option.map_some, Option.getD_some] at hfound
      obtain rfl : key g = k := by simpa using List.find?_some hrow
      exact ⟨g, List.mem_of_find?_eq_some hrow, hp, by omega⟩

end Table

/-! ### What each request grants -/

/-- Two catalogs have the same projects and the same grants. -/
structure SameGrants (c next : Catalog) : Prop where
  projects : next.projects = c.projects
  onProjects : next.projectGrants = c.projectGrants
  onTeams : next.teamGrants = c.teamGrants

theorem sameGrants_answer {r : Request} (h : ∀ reply, r.grantMade? reply = none) : SameGrants c (c.answer r).2 := by
  have hframe := framed c r
  generalize (c.answer r).2 = next at hframe
  cases hframe with
  | @founded _ _ _ createdAt => exact nomatch h (.ok ⟨0, "", "", "", createdAt⟩)
  | grantedOnProject | grantedOnTeam => exact nomatch h (.ok ())
  | _ => exact ⟨rfl, rfl, rfl⟩

/-- The tables hold the projects and the grants that were made. -/
structure GrantsHeld (c : Catalog) (made : List GrantMade) : Prop where
  projects : c.projects = projectsMade made
  onProjects : HoldsGrants (fun g : ProjectGrant => (g.userId, g.projectId)) ProjectGrant.level c.projectGrants
    (lastLevel (made.filterMap GrantMade.onProject?))
  onTeams : HoldsGrants (fun g : TeamGrant => (g.userId, g.teamId)) TeamGrant.level c.teamGrants
    (lastLevel (made.filterMap GrantMade.onTeam?))

theorem grantsHeld_empty : GrantsHeld Catalog.empty [] :=
  ⟨rfl, ⟨List.nodup_nil, fun _ => rfl⟩, ⟨List.nodup_nil, fun _ => rfl⟩⟩

theorem GrantsHeld.same {made : List GrantMade} {next : Catalog} (h : GrantsHeld c made) (hsame : SameGrants c next) :
    GrantsHeld next made :=
  ⟨hsame.projects ▸ h.projects, hsame.onProjects ▸ h.onProjects, hsame.onTeams ▸ h.onTeams⟩

variable {made : List GrantMade}

theorem GrantsHeld.founder (h : GrantsHeld c made) (hsound : HistorySound c) (teamId title createdBy : String)
    (createdAt : DateTime) :
    GrantsHeld (c.withProject teamId title createdBy createdAt)
      (made ++ [.founder ⟨c.projects.length + 1, teamId, title, createdBy, createdAt⟩]) where
  projects := by simp [withProject, h.projects, projectsMade, GrantMade.project?]
  onProjects := by
    simp only [List.filterMap_append, List.filterMap_cons, GrantMade.onProject?, List.filterMap_nil, lastLevel_append]
    exact h.onProjects.grant_new (fun g hg heq => hsound.no_grant_new hg (Prod.mk.inj heq).2) rfl
  onTeams := by simpa [withProject, GrantMade.onTeam?, List.filterMap_cons] using h.onTeams

theorem GrantsHeld.onProject (h : GrantsHeld c made) {userId : String} {projectId : Int} {level : AccessLevel}
    {updatedAt : DateTime} {next : Catalog}
    (hset : c.setProjectPermission userId projectId level updatedAt = .ok ((), next)) :
    GrantsHeld next (made ++ [.onProject userId projectId level]) := by
  have hheld : ∀ added, Leaves (fun g : ProjectGrant => (g.userId, g.projectId)) ProjectGrant.level
      (userId, projectId) level added →
      GrantsHeld { c with projectGrants :=
        (c.projectGrants.filter fun g => !(g.userId == userId && g.projectId == projectId)) ++ added }
        (made ++ [.onProject userId projectId level]) := fun added hadded =>
    { projects := by simpa [projectsMade, GrantMade.project?, List.filterMap_cons] using h.projects
      onProjects := by
        simp only [List.filterMap_append, List.filterMap_cons, GrantMade.onProject?, List.filterMap_nil,
          lastLevel_append]
        exact h.onProjects.regrant hadded
      onTeams := by simpa [GrantMade.onTeam?, List.filterMap_cons] using h.onTeams }
  unfold Catalog.setProjectPermission at hset
  split at hset
  · rename_i hnone
    cases hset
    simpa using hheld [] (hnone ▸ .nothing)
  · split at hset
    · cases hset
    · cases hset
      exact hheld _ (.row rfl rfl)

theorem GrantsHeld.onTeam (h : GrantsHeld c made) (userId teamId : String) (level : AccessLevel)
    (updatedAt : DateTime) :
    GrantsHeld (c.setTeamPermission userId teamId level updatedAt) (made ++ [.onTeam userId teamId level]) := by
  have hheld : ∀ added, Leaves (fun g : TeamGrant => (g.userId, g.teamId)) TeamGrant.level (userId, teamId) level
      added →
      GrantsHeld { c with teamGrants :=
        (c.teamGrants.filter fun g => !(g.userId == userId && g.teamId == teamId)) ++ added }
        (made ++ [.onTeam userId teamId level]) := fun added hadded =>
    { projects := by simpa [projectsMade, GrantMade.project?, List.filterMap_cons] using h.projects
      onProjects := by simpa [GrantMade.onProject?, List.filterMap_cons] using h.onProjects
      onTeams := by
        simp only [List.filterMap_append, List.filterMap_cons, GrantMade.onTeam?, List.filterMap_nil,
          lastLevel_append]
        exact h.onTeams.regrant hadded }
  unfold Catalog.setTeamPermission
  dsimp only
  split
  · rename_i hnone
    simpa using hheld [] (hnone ▸ .nothing)
  · exact hheld _ (.row rfl rfl)

/-- **Each request keeps the tables in step with the grants that were made.** -/
theorem grantsHeld_answer (h : GrantsHeld c made) (hsound : HistorySound c) (r : Request) :
    GrantsHeld (c.answer r).2 (made ++ (r.grantMade? (c.answer r).1).toList) := by
  by_cases hquiet : ∀ reply, r.grantMade? reply = none
  · rw [hquiet, Option.toList_none, List.append_nil]
    exact h.same (sameGrants_answer hquiet)
  cases r with
  | createProject teamId title createdBy createdAt =>
    change GrantsHeld (c.commitOr _).2 (made ++ (Request.grantMade? _ (c.commitOr _).1).toList)
    cases hmade : c.createProject teamId title createdBy createdAt with
    | error e => simpa [commitOr, Request.grantMade?] using h
    | ok result =>
      obtain ⟨project, next⟩ := result
      rw [createProject_eq_ok hmade, createProject_eq_row hmade]
      exact h.founder hsound teamId title createdBy createdAt
  | setProjectPermission userId projectId level updatedAt =>
    change GrantsHeld (c.commitOr _).2 (made ++ (Request.grantMade? _ (c.commitOr _).1).toList)
    cases hset : c.setProjectPermission userId projectId level updatedAt with
    | error e => simpa [commitOr, Request.grantMade?] using h
    | ok result => exact h.onProject hset
  | setTeamPermission userId teamId level updatedAt => exact h.onTeam userId teamId level updatedAt
  | _ => exact absurd (fun _ => rfl) hquiet

theorem grantsHeld_after (h : GrantsHeld c made) (hsound : HistorySound c) (requests : List Request) :
    GrantsHeld (c.after requests) (made ++ c.grantsMade requests) := by
  induction requests generalizing c made with
  | nil => simpa [grantsMade] using h
  | cons r rest ih =>
    rw [grantsMade, ← List.append_assoc]
    exact ih (grantsHeld_answer h hsound r) (historySound_step (answer_step c r) hsound)

/-! ### The three views -/

theorem GrantsHeld.projectLevel_eq (h : GrantsHeld c made) (userId : String) (projectId : Int) :
    c.projectLevel userId projectId = (lastOnProject made userId projectId).code :=
  h.onProjects.found (userId, projectId)

theorem GrantsHeld.teamLevel_eq (h : GrantsHeld c made) (userId teamId : String) :
    c.teamLevel userId teamId = (lastOnTeam made userId teamId).code :=
  h.onTeams.found (userId, teamId)

/-- The level on a project is the higher of its own last grant and what the last grant on its team gives. -/
theorem GrantsHeld.projectAccess_eq (h : GrantsHeld c made) (userId : String) (projectId : Int) :
    c.projectAccess userId projectId =
      max (lastOnProject made userId projectId) (impliedByTeam made userId projectId) := by
  have hteam : AccessLevel.ofTeam (((c.project? projectId).map fun p => c.teamAccess userId p.teamId).getD .none) =
      impliedByTeam made userId projectId := by
    rw [project?, h.projects, impliedByTeam]
    cases (projectsMade made).find? fun project => project.projectId == projectId with
    | none => rfl
    | some project =>
      simp only [Option.map_some, Option.getD_some, teamAccess, h.teamLevel_eq, AccessLevel.ofCode_code]
      rfl
  rw [projectAccess, h.projectLevel_eq, AccessLevel.ofCode_code, hteam]

theorem HistorySound.project?_of_mem (h : HistorySound c) {project : Project} (hproject : project ∈ c.projects) :
    c.project? project.projectId = some project :=
  find?_eq_some_of_only hproject (by simp) fun other hother hsame =>
    List.inj_on_of_nodup_map (h.projectIds.ascending.imp fun hlt => by omega) hother hproject (by simpa using hsame)

theorem HistorySound.mem_listProjects_iff (h : HistorySound c) {userId : String} {project : Project} :
    project ∈ c.listProjects userId ↔ project ∈ c.projects ∧ .read ≤ c.projectAccess userId project.projectId := by
  rw [listProjects, List.mem_filter]
  refine and_congr_right fun hproject => ?_
  rw [projectAccess, h.project?_of_mem hproject, AccessLevel.le_max_iff, AccessLevel.read_le_ofTeam,
    AccessLevel.read_le_ofCode, Option.map_some, Option.getD_some, teamAccess, AccessLevel.read_le_ofCode]
  simp

theorem HistorySound.ascending_listProjects (h : HistorySound c) (userId : String) :
    ((c.listProjects userId).map Project.projectId).Pairwise (· < ·) :=
  h.projectIds.ascending.sublist (List.filter_sublist.map Project.projectId)

theorem HistorySound.isSome_project?_of_access (h : HistorySound c) {userId : String} {projectId : Int}
    (hread : .read ≤ c.projectAccess userId projectId) : (c.project? projectId).isSome := by
  by_contra hnone
  have hlevel : c.projectLevel userId projectId = 0 := by
    rw [projectLevel, List.find?_eq_none.mpr, Option.map_none, Option.getD_none]
    intro g hg hmine
    simp only [Bool.and_eq_true, beq_iff_eq] at hmine
    exact hnone (hmine.2 ▸ h.grants g hg)
  rw [projectAccess, hlevel, Option.not_isSome_iff_eq_none.mp hnone, Option.map_none, Option.getD_none] at hread
  exact absurd hread (by decide)

theorem exists_of_write_le_impliedByTeam {userId : String} {projectId : Int}
    (h : .write ≤ impliedByTeam made userId projectId) : ∃ teamId, .write ≤ lastOnTeam made userId teamId := by
  unfold impliedByTeam at h
  split at h
  · exact absurd h (by decide)
  · split at h
    · exact ⟨_, ‹_›⟩
    · exact ⟨_, h⟩

theorem GrantsHeld.canUpload_iff (h : GrantsHeld c made) (userId : String) :
    c.canUpload userId ↔
      (∃ projectId, .write ≤ lastOnProject made userId projectId) ∨
        ∃ teamId, .write ≤ lastOnTeam made userId teamId := by
  have hpos : 0 < AccessLevel.write.code := by decide
  have hprojects := h.onProjects.exists_row_iff (fun k => k.1 = userId) hpos
  have hteams := h.onTeams.exists_row_iff (fun k => k.1 = userId) hpos
  simp only [Prod.exists, exists_and_left, exists_eq_left] at hprojects hteams
  simp only [canUpload, Bool.or_eq_true, List.any_eq_true, Bool.and_eq_true, beq_iff_eq, decide_eq_true_eq, hprojects,
    hteams]
  rfl

/-- **The views of rights agree with the grants.** After every sequence of requests, with any arguments and whether
they succeed or not, a user's level on a project is the higher of what the user was granted last on it, `owner` by
making it, and what the user's last grant on its team gives; the projects listed for a user are those that the user
may read, each once in the order of their identifiers; and a user may upload exactly if the user may write to some
project or was last granted that on some team. So whoever may commit may upload. -/
theorem reachable_access (requests : List Request) (userId : String) :
    let c := Catalog.empty.after requests
    let made := Catalog.empty.grantsMade requests
    (∀ projectId, c.projectAccess userId projectId =
      max (lastOnProject made userId projectId) (impliedByTeam made userId projectId)) ∧
    (∀ project, project ∈ c.listProjects userId ↔
      project ∈ projectsMade made ∧ .read ≤ c.projectAccess userId project.projectId) ∧
    ((c.listProjects userId).map Project.projectId).Pairwise (· < ·) ∧
    (c.canUpload userId ↔ (∃ project ∈ projectsMade made, .write ≤ c.projectAccess userId project.projectId) ∨
      ∃ teamId, .write ≤ lastOnTeam made userId teamId) ∧
    ∀ projectId, .write ≤ c.projectAccess userId projectId → c.canUpload userId := by
  intro c made
  have hsound : HistorySound c := historySound_after requests
  have hheld : GrantsHeld c made := grantsHeld_after grantsHeld_empty historySound_empty requests
  have haccess := hheld.projectAccess_eq userId
  have hmay {projectId : Int} (hwrite : .write ≤ c.projectAccess userId projectId) : c.canUpload userId := by
    rw [haccess, AccessLevel.le_max_iff] at hwrite
    exact (hheld.canUpload_iff userId).mpr (hwrite.imp (fun h => ⟨projectId, h⟩) exists_of_write_le_impliedByTeam)
  refine ⟨haccess, fun project => ?_, hsound.ascending_listProjects userId, ⟨fun h => ?_, ?_⟩, fun _ => hmay⟩
  · rw [← hheld.projects]
    exact hsound.mem_listProjects_iff
  · obtain ⟨projectId, hown⟩ | hteam := (hheld.canUpload_iff userId).mp h
    · have hwrite : .write ≤ c.projectAccess userId projectId := by
        rw [haccess, AccessLevel.le_max_iff]
        exact .inl hown
      have hthere := hsound.isSome_project?_of_access (Nat.le_trans (by decide) hwrite)
      obtain ⟨project, hproject, rfl⟩ := List.mem_map.mp (isSome_project?_iff.mp hthere)
      exact .inl ⟨project, hheld.projects ▸ hproject, hwrite⟩
    · exact .inr hteam
  · rintro (⟨project, -, hwrite⟩ | hteam)
    · exact hmay hwrite
    · exact (hheld.canUpload_iff userId).mpr (.inr hteam)

end Catalog

end Depot
