import Depot.Proofs.Catalog.Tables

/-!
# Files in the order of their paths

- Bisection finds what is there: in a state whose files ascend by path, `get?` answers the file that has the path
  (`get?_eq_some_iff`).
- `compareStates` goes through the paths of two such states in order. What differs backwards is what differs
  forwards with both sides exchanged (`compareStates_reversed`).
-/

namespace Depot

variable {files : List FileState} {path : String} {f : FileState}

/-- Files stand in the order of their paths, one for each. -/
def AscendingByPath (files : List FileState) : Prop := (files.map FileState.path).Pairwise (· < ·)

theorem AscendingByPath.eq_of_path_eq (h : AscendingByPath files) {g : FileState} (hf : f ∈ files) (hg : g ∈ files)
    (heq : f.path = g.path) : f = g :=
  List.inj_on_of_nodup_map (h.imp String.ne_of_lt) hf hg heq

/-! ### Bisection -/

namespace ProjectState

theorem bisect_eq {files : Array FileState} (h : AscendingByPath files.toList) {i : Nat} (hf : files[i]? = some f)
    {base size : Nat} (hlow : base ≤ i) (hhigh : i < base + size) : bisect files f.path base size = i := by
  have hlt : ∀ {j k : Nat} {g g' : FileState}, files[j]? = some g → files[k]? = some g' → j < k → g.path < g'.path := by
    intro j k g g' hg hg' hjk
    obtain ⟨hj, rfl⟩ := Array.getElem?_eq_some_iff.mp hg
    obtain ⟨hk, rfl⟩ := Array.getElem?_eq_some_iff.mp hg'
    simpa using List.pairwise_iff_getElem.mp (List.pairwise_map.mp h) j k hj hk hjk
  fun_induction bisect files f.path base size with
  | case1 base size hsmall => omega
  | case2 base size hlarge half behind ih =>
    have hhalf : half = size / 2 := rfl
    cases hmid : files[base + half]? with
    | none =>
      -- The middle lies behind all files.
      have hbehind : behind = true := by simp only [behind, hmid, Option.map_none, Option.getD_none]
      have hsize : i < files.size := (Array.getElem?_eq_some_iff.mp hf).1
      have hout := Array.getElem?_eq_none_iff.mp hmid
      simp only [hbehind, ↓reduceDIte, ↓reduceIte] at ih ⊢
      exact ih hlow (by omega)
    | some g =>
      have hbehind : behind = decide (f.path < g.path) := by
        simp only [behind, hmid, Option.map_some, Option.getD_some]
      by_cases hpath : f.path < g.path
      · have hbefore : i < base + half := by
          by_contra hge
          rcases Nat.lt_or_eq_of_le (Nat.le_of_not_lt hge) with hgt | heq
          · exact String.lt_asymm hpath (hlt hmid hf hgt)
          · rw [heq, hf] at hmid
            cases hmid
            exact String.lt_irrefl _ hpath
        rw [decide_eq_true hpath] at hbehind
        simp only [hbehind, ↓reduceDIte, ↓reduceIte] at ih ⊢
        exact ih hlow (by omega)
      · have hnot : base + half ≤ i := by
          by_contra hlt'
          exact hpath (hlt hf hmid (by omega))
        rw [decide_eq_false hpath] at hbehind
        simp only [hbehind, Bool.false_eq_true, ↓reduceDIte, ↓reduceIte] at ih ⊢
        exact ih hnot (by omega)

/-- **The file at a path is the one that has it.** -/
theorem get?_eq_some_iff {s : ProjectState} (h : AscendingByPath s.files) :
    s.get? path = some f ↔ f ∈ s.files ∧ f.path = path := by
  rw [get?]
  constructor
  · intro hfound
    obtain ⟨hat, hpath⟩ := Option.filter_eq_some_iff.mp hfound
    rw [List.getElem?_toArray] at hat
    exact ⟨List.mem_of_getElem? hat, beq_iff_eq.mp hpath⟩
  · rintro ⟨hmem, rfl⟩
    obtain ⟨i, hi⟩ := List.getElem?_of_mem hmem
    have hsize : i < s.files.length := (List.getElem?_eq_some_iff.mp hi).1
    have hbisect : bisect s.files.toArray f.path 0 s.files.toArray.size = i :=
      bisect_eq h (by rwa [List.getElem?_toArray]) (Nat.zero_le i) (by simpa using hsize)
    rw [hbisect, List.getElem?_toArray, hi]
    simp

theorem lastWithPath?_eq_get? {s : ProjectState} (h : AscendingByPath s.files) (path : String) :
    lastWithPath? s.files path = s.get? path := by
  ext f
  rw [get?_eq_some_iff h]
  constructor
  · intro hfound
    rw [lastWithPath?] at hfound
    exact ⟨List.mem_reverse.mp (List.mem_of_find?_eq_some hfound), by simpa using List.find?_some hfound⟩
  · rintro ⟨hmem, rfl⟩
    refine Catalog.find?_eq_some_of_only (List.mem_reverse.mpr hmem) (beq_self_eq_true _) fun g hg hpath => ?_
    exact h.eq_of_path_eq (List.mem_reverse.mp hg) hmem (beq_iff_eq.mp hpath)

end ProjectState

/-! ### Differences -/

/-- A difference seen from the other side. -/
def ChangedPath.reversed (c : ChangedPath) : ChangedPath := ⟨c.path, c.after, c.before⟩

def StateDiff.reversed (d : StateDiff) : StateDiff :=
  ⟨d.toCommitId, d.fromCommitId, d.unchanged, d.changed.map ChangedPath.reversed⟩

section Compare

variable {a b : ProjectState} (ha : AscendingByPath a.files) (hb : AscendingByPath b.files)
include ha hb

theorem pairByPath_eq : pairByPath a.files b.files =
    (sortedDistinct ((a.files ++ b.files).map FileState.path)).map fun path => ⟨path, a.get? path, b.get? path⟩ := by
  simp only [pairByPath, ProjectState.lastWithPath?_eq_get? ha, ProjectState.lastWithPath?_eq_get? hb]

theorem mem_pairByPath {c : ChangedPath} :
    c ∈ pairByPath a.files b.files ↔
      (c.path ∈ a.files.map FileState.path ∨ c.path ∈ b.files.map FileState.path) ∧
        c.before = a.get? c.path ∧ c.after = b.get? c.path := by
  rw [pairByPath_eq ha hb, List.mem_map]
  simp only [Catalog.mem_sortedDistinct, List.map_append, List.mem_append]
  constructor
  · rintro ⟨path, hpath, rfl⟩
    exact ⟨hpath, rfl, rfl⟩
  · rintro ⟨hpath, hbefore, hafter⟩
    exact ⟨c.path, hpath, by rw [← hbefore, ← hafter]⟩

omit ha hb in
theorem ascending_pairByPath (before after : List FileState) :
    ((pairByPath before after).map ChangedPath.path).Pairwise (· < ·) := by
  rw [pairByPath, List.map_map]
  exact (List.map_id _).symm ▸ Catalog.ascending_sortedDistinct _

omit ha hb in
theorem sameRevision?_eq_some_iff {c : ChangedPath} :
    sameRevision? c = some f ↔ c.after = some f ∧ ∃ g, c.before = some g ∧ g.revisionId = f.revisionId := by
  obtain ⟨path, before, after⟩ := c
  cases before <;> cases after <;> simp only [sameRevision?, reduceCtorEq, false_and, and_false, exists_false,
    Option.ite_none_right_eq_some, Option.some.injEq, exists_eq_left']
  constructor
  · rintro ⟨heq, rfl⟩
    exact ⟨rfl, heq⟩
  · rintro ⟨rfl, heq⟩
    exact ⟨heq, rfl⟩

theorem mem_unchanged :
    f ∈ (compareStates a b).unchanged ↔
      f ∈ b.files ∧ ∃ g ∈ a.files, g.path = f.path ∧ g.revisionId = f.revisionId := by
  simp only [compareStates, List.mem_filterMap, mem_pairByPath ha hb, sameRevision?_eq_some_iff]
  constructor
  · rintro ⟨c, ⟨_, hbefore, hafter⟩, hf, g, hg, hsame⟩
    rw [hafter, ProjectState.get?_eq_some_iff hb] at hf
    rw [hbefore, ProjectState.get?_eq_some_iff ha] at hg
    exact ⟨hf.1, g, hg.1, hg.2.trans hf.2.symm, hsame⟩
  · rintro ⟨hf, g, hg, hpath, hsame⟩
    have hafter := (ProjectState.get?_eq_some_iff hb).mpr ⟨hf, rfl⟩
    have hbefore := (ProjectState.get?_eq_some_iff ha).mpr ⟨hg, hpath⟩
    exact ⟨⟨f.path, a.get? f.path, b.get? f.path⟩, ⟨.inr (List.mem_map_of_mem hf), rfl, rfl⟩, hafter, g, hbefore, hsame⟩

theorem ascending_unchanged : AscendingByPath (compareStates a b).unchanged := by
  have hpairs := List.pairwise_map.mp (ascending_pairByPath a.files b.files)
  refine List.pairwise_map.mpr (List.pairwise_filterMap.mpr (hpairs.imp_of_mem ?_))
  intro c d hc hd hlt f hf g hg
  have hpath : ∀ {e : ChangedPath} {f : FileState}, e ∈ pairByPath a.files b.files → sameRevision? e = some f →
      f.path = e.path := fun he hsame => by
    have hafter := (sameRevision?_eq_some_iff.mp hsame).1
    rw [((mem_pairByPath ha hb).mp he).2.2] at hafter
    exact ((ProjectState.get?_eq_some_iff hb).mp hafter).2
  rwa [hpath hc hf, hpath hd hg]

theorem mem_changed {c : ChangedPath} :
    c ∈ (compareStates a b).changed ↔
      (c.path ∈ a.files.map FileState.path ∨ c.path ∈ b.files.map FileState.path) ∧
        c.path ∉ (compareStates a b).unchanged.map FileState.path ∧
        c.before = a.get? c.path ∧ c.after = b.get? c.path := by
  have hunchanged : c.before = a.get? c.path → c.after = b.get? c.path →
      (sameRevision? c = none ↔ c.path ∉ (compareStates a b).unchanged.map FileState.path) := by
    intro hbefore hafter
    rw [Option.eq_none_iff_forall_ne_some, List.mem_map, not_exists]
    refine forall_congr' fun f => not_congr ?_
    rw [sameRevision?_eq_some_iff, hbefore, hafter, mem_unchanged ha hb, ProjectState.get?_eq_some_iff hb]
    simp only [ProjectState.get?_eq_some_iff ha]
    constructor
    · rintro ⟨⟨hf, hpath⟩, g, ⟨hg, hgpath⟩, hsame⟩
      exact ⟨⟨hf, g, hg, hgpath.trans hpath.symm, hsame⟩, hpath⟩
    · rintro ⟨⟨hf, g, hg, hgpath, hsame⟩, hpath⟩
      exact ⟨⟨hf, hpath⟩, g, ⟨hg, hgpath.trans hpath⟩, hsame⟩
  simp only [compareStates, List.mem_filter, mem_pairByPath ha hb, Option.isNone_iff_eq_none] at hunchanged ⊢
  constructor
  · rintro ⟨⟨hpath, hbefore, hafter⟩, hnone⟩
    exact ⟨hpath, (hunchanged hbefore hafter).mp hnone, hbefore, hafter⟩
  · rintro ⟨hpath, hnot, hbefore, hafter⟩
    exact ⟨⟨hpath, hbefore, hafter⟩, (hunchanged hbefore hafter).mpr hnot⟩

omit ha hb in
theorem ascending_changed (a b : ProjectState) :
    ((compareStates a b).changed.map ChangedPath.path).Pairwise (· < ·) :=
  (ascending_pairByPath a.files b.files).sublist (List.filter_sublist.map _)

/-- **What differs backwards is what differs forwards with both sides exchanged**, if states that have the same
revision have the same file by it. -/
theorem compareStates_reversed
    (hsame : ∀ f ∈ a.files, ∀ g ∈ b.files, f.revisionId = g.revisionId → f = g) :
    compareStates b a = (compareStates a b).reversed := by
  have hpaths : sortedDistinct ((b.files ++ a.files).map FileState.path) =
      sortedDistinct ((a.files ++ b.files).map FileState.path) := by
    refine List.Pairwise.eq_of_mem_iff (Catalog.ascending_sortedDistinct _) (Catalog.ascending_sortedDistinct _) ?_
    intro path
    simp only [Catalog.mem_sortedDistinct, List.map_append, List.mem_append, or_comm]
  have hpairs : pairByPath b.files a.files = (pairByPath a.files b.files).map ChangedPath.reversed := by
    rw [pairByPath_eq hb ha, pairByPath_eq ha hb, hpaths, List.map_map]
    rfl
  have hsides : ∀ c ∈ pairByPath a.files b.files, sameRevision? c.reversed = sameRevision? c := by
    intro c hc
    obtain ⟨_, hbefore, hafter⟩ := (mem_pairByPath ha hb).mp hc
    ext f
    rw [sameRevision?_eq_some_iff, sameRevision?_eq_some_iff, ChangedPath.reversed, hbefore, hafter]
    simp only [ProjectState.get?_eq_some_iff ha, ProjectState.get?_eq_some_iff hb]
    constructor
    · rintro ⟨hf, g, hg, hid⟩
      obtain rfl : f = g := hsame f hf.1 g hg.1 hid.symm
      exact ⟨hg, f, hf, rfl⟩
    · rintro ⟨hf, g, hg, hid⟩
      obtain rfl : g = f := hsame g hg.1 f hf.1 hid
      exact ⟨hg, g, hf, rfl⟩
  rw [compareStates, compareStates, StateDiff.reversed, hpairs, List.filterMap_map, List.filter_map]
  congr 1
  · exact List.filterMap_congr hsides
  · exact congrArg (List.map ChangedPath.reversed) (List.filter_congr fun c hc => by
      rw [Function.comp_apply, hsides c hc])

end Compare

end Depot
