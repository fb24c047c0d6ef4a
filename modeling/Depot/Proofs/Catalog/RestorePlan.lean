import Depot.Proofs.Catalog.Tables
import Depot.Proofs.Outcome

/-!
# Planning a restore

`planRestore` names, in ascending order, the paths at which two states differ in content or kind. A path that
the wanted state has gets what it has there, and every other path is deleted.
-/

namespace Depot.Catalog

open Content

variable {current target : List Revision} {path : String} {draft : RevisionDraft} {drafts : List RevisionDraft}

/-- The content and the kind that a state has at a path. -/
def versionAt (rows : List Revision) (path : String) : Option (String × Int) :=
  (lastRevisionAt? rows path).map fun r => (r.contentHash, r.kind)

theorem lastRevisionAt?_mem {rows : List Revision} {r : Revision} (h : lastRevisionAt? rows path = some r) :
    r ∈ rows ∧ r.path = path := by
  have hmem := List.mem_of_find?_eq_some h
  have hpath := List.find?_some h
  exact ⟨List.mem_reverse.mp hmem, by simpa using hpath⟩

theorem lastRevisionAt?_eq_none_iff {rows : List Revision} :
    lastRevisionAt? rows path = none ↔ path ∉ rows.map Revision.path := by
  simp [lastRevisionAt?]

theorem kind_code {code : Int} {kind : ChangeKind} (h : ChangeKind.ofCode code = .ok kind) : kind.code = code := by
  unfold ChangeKind.ofCode at h
  split at h
  · cases h
    exact Eq.symm ‹_›
  · split at h
    · cases h
      exact Eq.symm ‹_›
    · split at h
      · cases h
        exact Eq.symm ‹_›
      · cases h

@[simp] theorem ofCode_code (kind : ChangeKind) : ChangeKind.ofCode kind.code = .ok kind := by
  cases kind <;> rfl

theorem changeKind_eq_ok {r : Revision} {kind : ChangeKind} (h : r.kind = kind.code) : r.changeKind = .ok kind := by
  rw [Revision.changeKind, h, ofCode_code]
  rfl

theorem code_of_changeKind {r : Revision} {kind : ChangeKind} (h : r.changeKind = .ok kind) : r.kind = kind.code := by
  unfold Revision.changeKind at h
  cases hcode : ChangeKind.ofCode r.kind with
  | ok found =>
    rw [hcode] at h
    cases h
    exact (kind_code hcode).symm
  | error e =>
    rw [hcode] at h
    cases h

/-- A draft takes a path from one state to another. -/
inductive Restores (current target : List Revision) (draft : RevisionDraft) : Prop where
  | brings {wanted : Revision} (there : lastRevisionAt? target draft.path = some wanted)
    (contentHash : draft.contentHash = wanted.contentHash) (kind : draft.kind.code = wanted.kind)
  | removes {old : Revision} (gone : lastRevisionAt? target draft.path = none)
    (there : lastRevisionAt? current draft.path = some old) (contentHash : draft.contentHash = old.contentHash)
    (kind : draft.kind = .delete)

theorem restoreStep_eq_none (h : restoreStep current target path = .ok none) :
    versionAt current path = versionAt target path := by
  unfold restoreStep at h
  unfold versionAt
  split at h
  · rename_i wanted old hwanted hold
    split at h
    · rename_i hsame
      simp [hwanted, hold, hsame]
    · cases hkind : wanted.changeKind <;> simp [hkind, Except.map] at h
  · rename_i wanted _ _
    cases hkind : wanted.changeKind <;> simp [hkind, Except.map] at h
  · cases h
  · rename_i hwanted hold
    simp [hwanted, hold]

theorem restoreStep_eq_some (h : restoreStep current target path = .ok (some draft)) :
    draft.path = path ∧ Restores current target draft ∧ versionAt current path ≠ versionAt target path := by
  unfold restoreStep at h
  unfold versionAt
  split at h
  · rename_i wanted old hwanted hold
    split at h
    · cases h
    · rename_i hdiffer
      cases hkind : wanted.changeKind with
      | error e => simp [hkind] at h
      | ok kind =>
        simp only [hkind, map_ok, Except.ok.injEq, Option.some.injEq] at h
        subst h
        exact ⟨rfl, .brings hwanted rfl (code_of_changeKind hkind).symm, by simpa [hwanted, hold] using hdiffer⟩
  · rename_i wanted hwanted hold
    cases hkind : wanted.changeKind with
    | error e => simp [hkind] at h
    | ok kind =>
      simp only [hkind, map_ok, Except.ok.injEq, Option.some.injEq] at h
      subst h
      exact ⟨rfl, .brings hwanted rfl (code_of_changeKind hkind).symm, by simp [hwanted, hold]⟩
  · rename_i old hwanted hold
    cases h
    exact ⟨rfl, .removes hwanted hold rfl rfl, by simp [hwanted, hold]⟩
  · cases h

theorem restoreStep_ok (current : List Revision) (hkinds : ∀ r ∈ target, ∃ kind : ChangeKind, r.kind = kind.code)
    (path : String) :
    ∃ step, restoreStep current target path = .ok step := by
  unfold restoreStep
  split
  · rename_i wanted _ hwanted _
    obtain ⟨kind, hkind⟩ := hkinds wanted (lastRevisionAt?_mem hwanted).1
    split
    · exact ⟨_, rfl⟩
    · exact ⟨_, by rw [changeKind_eq_ok hkind, map_ok]⟩
  · rename_i wanted hwanted _
    obtain ⟨kind, hkind⟩ := hkinds wanted (lastRevisionAt?_mem hwanted).1
    exact ⟨_, by rw [changeKind_eq_ok hkind, map_ok]⟩
  · exact ⟨_, rfl⟩
  · exact ⟨_, rfl⟩

/-- The draft of a path that a plan has for it. -/
def stepAt (current target : List Revision) (path : String) : Option RevisionDraft :=
  (restoreStep current target path).toOption.join

theorem restoreStep_eq_stepAt {step : Option RevisionDraft} (h : restoreStep current target path = .ok step) :
    restoreStep current target path = .ok (stepAt current target path) := by
  rw [stepAt, h]
  rfl

/-- What a plan holds. -/
structure RestorePlan (current target : List Revision) (drafts : List RevisionDraft) : Prop where
  ascending : (drafts.map RevisionDraft.path).Pairwise (· < ·)
  differing : ∀ path, path ∈ drafts.map RevisionDraft.path ↔ versionAt current path ≠ versionAt target path
  restores : ∀ draft ∈ drafts, Restores current target draft

theorem planRestore_eq_ok (h : planRestore current target = .ok drafts) : RestorePlan current target drafts := by
  unfold planRestore at h
  dsimp only at h
  cases hsteps : (sortedDistinct ((current ++ target).map Revision.path)).mapM (restoreStep current target) with
  | error e =>
    rw [hsteps] at h
    cases h
  | ok steps =>
    have hall : ∀ p ∈ sortedDistinct ((current ++ target).map Revision.path),
        restoreStep current target p = .ok (stepAt current target p) := by
      intro p hp
      obtain ⟨step, hstep⟩ := exists_of_mapM_eq_ok hsteps p hp
      exact restoreStep_eq_stepAt hstep
    have hdrafts : drafts =
        (sortedDistinct ((current ++ target).map Revision.path)).filterMap (stepAt current target) := by
      rw [mapM_eq_ok hall] at h
      simp only [map_ok, Except.ok.injEq, List.filterMap_map] at h
      exact h.symm
    have hmem : ∀ draft ∈ drafts, restoreStep current target draft.path = .ok (some draft) := by
      intro draft hd
      rw [hdrafts] at hd
      obtain ⟨p, hp, hstep⟩ := List.mem_filterMap.mp hd
      have hp := hall p hp
      rw [hstep] at hp
      rw [(restoreStep_eq_some hp).1]
      exact hp
    refine ⟨?_, fun path => ⟨fun hpath => ?_, fun hdiffer => ?_⟩, fun draft hd => ?_⟩
    · rw [hdrafts, List.pairwise_map, List.pairwise_filterMap]
      refine (ascending_sortedDistinct _).imp_of_mem fun {p q} hp hq hlt d hd e he => ?_
      rw [(restoreStep_eq_some (hd ▸ hall p hp)).1, (restoreStep_eq_some (he ▸ hall q hq)).1]
      exact hlt
    · obtain ⟨draft, hd, rfl⟩ := List.mem_map.mp hpath
      exact (restoreStep_eq_some (hmem draft hd)).2.2
    · have hpath : path ∈ sortedDistinct ((current ++ target).map Revision.path) := by
        rw [mem_sortedDistinct]
        by_contra hnone
        rw [List.map_append, List.mem_append, not_or] at hnone
        exact hdiffer (by rw [versionAt, versionAt, lastRevisionAt?_eq_none_iff.mpr hnone.1,
          lastRevisionAt?_eq_none_iff.mpr hnone.2])
      have hstep := hall path hpath
      cases hdraft : stepAt current target path with
      | none =>
        rw [hdraft] at hstep
        exact absurd (restoreStep_eq_none hstep) hdiffer
      | some draft =>
        rw [hdraft] at hstep
        refine List.mem_map.mpr ⟨draft, ?_, (restoreStep_eq_some hstep).1⟩
        rw [hdrafts]
        exact List.mem_filterMap.mpr ⟨path, hpath, hdraft⟩
    · exact (restoreStep_eq_some (hmem draft hd)).2.1

theorem exists_planRestore (current : List Revision)
    (hkinds : ∀ r ∈ target, ∃ kind : ChangeKind, r.kind = kind.code) :
    ∃ drafts, planRestore current target = .ok drafts := by
  have hall : ∀ p ∈ sortedDistinct ((current ++ target).map Revision.path),
      restoreStep current target p = .ok (stepAt current target p) := by
    intro p _
    obtain ⟨step, hstep⟩ := restoreStep_ok current hkinds p
    exact restoreStep_eq_stepAt hstep
  refine ⟨((sortedDistinct ((current ++ target).map Revision.path)).map (stepAt current target)).filterMap id, ?_⟩
  unfold planRestore
  dsimp only
  rw [mapM_eq_ok hall, map_ok]

end Depot.Catalog
