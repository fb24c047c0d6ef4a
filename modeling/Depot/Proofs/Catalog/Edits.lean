import Depot.Catalog.Edit
import Depot.Proofs.Catalog.AccessViews

/-!
# Rows changed by hand

What an edit of rows does to all that is read off them.

- `edit_of_zero`: an edit that answers that no row was changed has changed nothing.
- `Edited`: what no edit changes. Blocks, projects, commits and tokens stay, and so does the place of every revision.
- `projectLevel_edit`, `teamLevel_edit`: the number that is set is the one that is found, and all others stay.
- `isFileComplete_deleteChunk`: a file that has lost a row is not complete, so no commit can name it
  (`refusedFor_deleteChunk`).
-/

namespace Depot.Catalog

variable {c next : Catalog} {e : Edit} {fileHash : String}

theorem changeRows_of_zero {α : Type} {rows : List α} {picked : α → Bool} {change : α → α}
    (h : (changeRows rows picked change).1 = 0) : (changeRows rows picked change).2 = rows := by
  have hnone : rows.filter picked = [] := List.length_eq_zero_iff.mp h
  refine (List.map_congr_left fun row hrow => ?_).trans (List.map_id rows)
  exact if_neg (List.filter_eq_nil_iff.mp hnone row hrow)

/-- **An edit that answers that no row was changed has changed nothing.** -/
theorem edit_of_zero (h : (c.edit e).1 = 0) : (c.edit e).2 = c := by
  cases e with
  | deleteChunk fileHash index =>
    have hnone := List.filter_eq_nil_iff.mp (List.length_eq_zero_iff.mp h)
    have hsame : c.chunks.filter (fun k => !(k.fileHash == fileHash && k.index == index)) = c.chunks :=
      List.filter_eq_self.mpr fun k hk => by rw [Bool.eq_false_iff.mpr (hnone k hk), Bool.not_false]
    exact congrArg (fun chunks => { c with chunks }) hsame
  | setTeamLevel userId teamId level => cases h
  | setProjectLevel userId projectId level => cases h
  | setRevisionHash revisionId contentHash =>
    exact congrArg (fun revisions => { c with revisions }) (changeRows_of_zero h)
  | setRevisionChunks revisionId count => exact congrArg (fun revisions => { c with revisions }) (changeRows_of_zero h)
  | setMarker value =>
    rw [edit] at h ⊢
    split at h
    · cases h
    · rfl
  | dropMarkerRow =>
    cases hmarker : c.marker with
    | none => rw [edit, ← hmarker]
    | some name => simp [edit, hmarker] at h

/-! ### What no edit changes -/

/-- Where a revision stands, whatever content it names. -/
def Revision.place (r : Revision) : Int × Int × String × Int × Int :=
  (r.revisionId, r.projectId, r.path, r.commitId, r.kind)

/-- What no edit changes. -/
structure Edited (c next : Catalog) : Prop where
  blocks : next.blocks = c.blocks
  staged : next.staged = c.staged
  projects : next.projects = c.projects
  commits : next.commits = c.commits
  tokens : next.tokens = c.tokens
  chunks : next.chunks.Sublist c.chunks
  places : next.revisions.map Revision.place = c.revisions.map Revision.place

theorem Edited.trans {d : Catalog} (h : Edited c d) (hnext : Edited d next) : Edited c next where
  blocks := hnext.blocks.trans h.blocks
  staged := hnext.staged.trans h.staged
  projects := hnext.projects.trans h.projects
  commits := hnext.commits.trans h.commits
  tokens := hnext.tokens.trans h.tokens
  chunks := hnext.chunks.trans h.chunks
  places := hnext.places.trans h.places

theorem map_changeRows {α κ : Type} {key : α → κ} {rows : List α} {picked : α → Bool} {change : α → α}
    (h : ∀ row, key (change row) = key row) : (changeRows rows picked change).2.map key = rows.map key := by
  rw [changeRows, List.map_map]
  refine List.map_congr_left fun row _ => ?_
  rw [Function.comp_apply]
  split
  · exact h row
  · rfl

/-- **An edit touches only levels, the rows of files, the content that revisions name, and the marker.** -/
theorem edited_edit (c : Catalog) (e : Edit) : Edited c (c.edit e).2 := by
  cases e with
  | deleteChunk fileHash index => exact ⟨rfl, rfl, rfl, rfl, rfl, List.filter_sublist, rfl⟩
  | setRevisionHash revisionId contentHash =>
    exact ⟨rfl, rfl, rfl, rfl, rfl, .refl _, map_changeRows fun _ => rfl⟩
  | setRevisionChunks revisionId count => exact ⟨rfl, rfl, rfl, rfl, rfl, .refl _, map_changeRows fun _ => rfl⟩
  | setMarker value => cases hmarker : c.marker <;> rw [edit, hmarker] <;> exact ⟨rfl, rfl, rfl, rfl, rfl, .refl _, rfl⟩
  | _ => exact ⟨rfl, rfl, rfl, rfl, rfl, .refl _, rfl⟩

theorem edited_edits (c : Catalog) (edits : List Edit) : Edited c (edits.foldl (fun c e => (c.edit e).2) c) := by
  induction edits generalizing c with
  | nil => exact ⟨rfl, rfl, rfl, rfl, rfl, .refl _, rfl⟩
  | cons e rest ih => exact (edited_edit c e).trans (ih _)

/-! ### Levels -/

section Rows

variable {α : Type} {rows : List α} {row : α} {p q : α → Bool}

theorem find?_replaced (hrow : p row) : ((rows.filter fun g => !p g) ++ [row]).find? p = some row := by
  have hnone : (rows.filter fun g => !p g).find? p = none :=
    List.find?_eq_none.mpr fun g hg => by simpa using (List.mem_filter.mp hg).2
  rw [List.find?_append, hnone, Option.none_or, List.find?_singleton, if_pos hrow]

theorem find?_others (hapart : ∀ g, q g → ¬p g) (hrow : p row) :
    ((rows.filter fun g => !p g) ++ [row]).find? q = rows.find? q := by
  have hskip : [row].find? q = none := by
    rw [List.find?_singleton, if_neg fun hq => hapart row hq hrow]
  have hsame : (fun g => !p g && q g) = q := by
    funext g
    cases hq : q g with
    | false => exact Bool.and_false _
    | true => simp [hapart g hq]
  rw [List.find?_append, hskip, Option.or_none, List.find?_filter]
  simp [hsame]

end Rows

/-- **The number that is set on a project is the one that is found, and all others stay.** -/
theorem projectLevel_edit (c : Catalog) (userId : String) (projectId level : Int) (user : String) (project : Int) :
    (c.edit (.setProjectLevel userId projectId level)).2.projectLevel user project =
      if user = userId ∧ project = projectId then level else c.projectLevel user project := by
  split
  · rename_i heq
    obtain ⟨rfl, rfl⟩ := heq
    rw [projectLevel, edit, find?_replaced (by simp)]
    rfl
  · rename_i hne
    rw [projectLevel, edit, find?_others (fun g hg hp => hne ?_) (by simp), projectLevel]
    simp only [Bool.and_eq_true, beq_iff_eq] at hg hp
    exact ⟨hg.1.symm.trans hp.1, hg.2.symm.trans hp.2⟩

theorem teamLevel_edit (c : Catalog) (userId teamId : String) (level : Int) (user team : String) :
    (c.edit (.setTeamLevel userId teamId level)).2.teamLevel user team =
      if user = userId ∧ team = teamId then level else c.teamLevel user team := by
  split
  · rename_i heq
    obtain ⟨rfl, rfl⟩ := heq
    rw [teamLevel, edit, find?_replaced (by simp)]
    rfl
  · rename_i hne
    rw [teamLevel, edit, find?_others (fun g hg hp => hne ?_) (by simp), teamLevel]
    simp only [Bool.and_eq_true, beq_iff_eq] at hg hp
    exact ⟨hg.1.symm.trans hp.1, hg.2.symm.trans hp.2⟩

/-! ### Files -/

/-- **A file of a sound catalog that has lost a row is not complete.** -/
theorem isFileComplete_deleteChunk (h : ContentSound c) {index : Int}
    (hrow : 0 < (c.edit (.deleteChunk fileHash index)).1) :
    (c.edit (.deleteChunk fileHash index)).2.isFileComplete fileHash = false := by
  let ofFile (k : Chunk) : Bool := k.fileHash == fileHash
  let picked (k : Chunk) : Bool := ofFile k && k.index == index
  let left := (c.chunks.filter fun k => !picked k).filter ofFile
  obtain ⟨n, hn⟩ : ∃ n, FileSound c fileHash n := by
    obtain ⟨k, hk⟩ := List.exists_mem_of_length_pos hrow
    obtain ⟨hmem, hpicked⟩ := List.mem_filter.mp hk
    have hfile : k.fileHash = fileHash := beq_iff_eq.mp (Bool.and_eq_true_iff.mp hpicked).1
    exact h.files fileHash (List.ne_nil_of_mem (mem_listChunks.mpr ⟨hmem, hfile⟩))
  have hfewer : left.length < n := by
    have hall : (c.chunks.filter ofFile).length = n := length_listChunks c fileHash ▸ hn.length_eq
    have hsplit := (c.chunks.filter ofFile).length_eq_length_filter_add picked
    have hpicked : (c.chunks.filter ofFile).filter picked = c.chunks.filter picked := by
      rw [List.filter_filter]
      exact List.filter_congr fun k _ => by simp only [picked]; cases ofFile k <;> simp
    have hleft : (c.chunks.filter ofFile).filter (fun k => !picked k) = left := List.filter_comm ..
    have hdeleted : 0 < (c.chunks.filter picked).length := hrow
    rw [hall, hpicked, hleft] at hsplit
    omega
  have hnone : (greatest? (left.map Chunk.count)).filter (fun count => (left.length : Int) == count) = none := by
    refine Option.filter_eq_none_iff.mpr fun m hm => ?_
    obtain ⟨k, hk, rfl⟩ := List.mem_map.mp (greatest?_eq_some_iff.mp hm).1
    obtain ⟨hrest, hfile⟩ := List.mem_filter.mp hk
    rw [hn.counts k (List.mem_filter.mp hrest).1 (beq_iff_eq.mp hfile)]
    simp
    omega
  exact congrArg Option.isSome hnone

/-- **A commit of a file that has lost a row is refused for it.** -/
theorem refusedFor_deleteChunk (h : ContentSound c) {index : Int}
    (hrow : 0 < (c.edit (.deleteChunk fileHash index)).1) {draft : CommitDraft}
    (hproject : (c.project? draft.projectId).isSome)
    (hnamed : fileHash ∈ draft.revisions.map RevisionDraft.contentHash) :
    RefusedFor (c.edit (.deleteChunk fileHash index)).2 draft fileHash := by
  have hstill : ((c.edit (.deleteChunk fileHash index)).2.project? draft.projectId).isSome := hproject
  rw [refusedFor_iff hstill, mem_missingFiles]
  exact ⟨mem_distinctHashes.mpr hnamed, isFileComplete_deleteChunk h hrow⟩

end Depot.Catalog
