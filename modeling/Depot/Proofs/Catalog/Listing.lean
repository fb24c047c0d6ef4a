import Depot.Catalog.Listing
import Depot.Proofs.Catalog.Repetition
import Mathlib.Data.List.Perm.Basic

/-!
# What a listing tells

A listing shows all rows but those of the tokens, without times. Each table is sorted by its cells, first column first,
so a listing does not depend on the order of the rows: two catalogs have the same listing exactly if they have the
same rows apart from times (`listing_eq_iff`). Registering a chunk again is not seen in it (`Retimed.listing_eq`).
-/

namespace Depot.Catalog

open Content Time

variable {a b d : Json} {as bs ds : List Json}

/-! ### Rows in order -/

/-- Two cells of one column: both are numbers, or both are texts. -/
inductive Alike : Json → Json → Prop where
  | int (m n : Int) : Alike (.int m) (.int n)
  | str (s t : String) : Alike (.str s) (.str t)

/-- A cell stands before another of its column. -/
inductive Precedes : Json → Json → Prop where
  | int {m n : Int} (h : m < n) : Precedes (.int m) (.int n)
  | str {s t : String} (h : s < t) : Precedes (.str s) (.str t)

theorem Precedes.trans (h : Precedes a b) (hnext : Precedes b d) : Precedes a d := by
  cases h with
  | int h =>
    cases hnext with
    | int hnext => exact .int (Int.lt_trans h hnext)
  | str h =>
    cases hnext with
    | str hnext => exact .str (String.lt_trans h hnext)

theorem Precedes.irrefl (a : Json) : ¬Precedes a a := by
  intro h
  cases h with
  | int h => exact Int.lt_irrefl _ h
  | str h => exact String.lt_irrefl _ h

theorem Alike.trichotomy (h : Alike a b) : Precedes a b ∨ a = b ∨ Precedes b a := by
  cases h with
  | int m n =>
    rcases Int.lt_trichotomy m n with hlt | rfl | hgt
    · exact .inl (.int hlt)
    · exact .inr (.inl rfl)
    · exact .inr (.inr (.int hgt))
  | str s t =>
    by_cases hlt : s < t
    · exact .inl (.str hlt)
    · by_cases hgt : t < s
      · exact .inr (.inr (.str hgt))
      · exact .inr (.inl (congrArg _ (String.le_antisymm hgt hlt)))

theorem compareCells_eq_lt (h : Precedes a b) : compareCells a b = .lt := by
  cases h with
  | int h => exact compare_lt_iff_lt.mpr h
  | str h => exact if_pos h

theorem compareCells_eq_gt (h : Precedes b a) : compareCells a b = .gt := by
  cases h with
  | int h => exact compare_gt_iff_gt.mpr h
  | @str s t h =>
    have hne : t ≠ s := fun heq => String.lt_irrefl _ (heq ▸ h)
    exact (if_neg (String.lt_asymm h)).trans (if_neg hne)

theorem compareCells_self (a : Json) : compareCells a a = .eq := by
  cases a <;> try rfl
  · exact compare_eq_iff_eq.mpr rfl
  · exact (if_neg (String.lt_irrefl _)).trans (if_pos rfl)

theorem rowLe_cons_iff (h : Alike a b) : rowLe (a :: as) (b :: bs) ↔ Precedes a b ∨ a = b ∧ rowLe as bs := by
  rcases h.trichotomy with hlt | rfl | hgt
  · simp [rowLe, compareCells_eq_lt hlt, hlt]
  · simp [rowLe, compareCells_self, Precedes.irrefl]
  · have hnot : ¬Precedes a b := fun hlt => Precedes.irrefl a (hlt.trans hgt)
    have hne : a ≠ b := fun heq => Precedes.irrefl a (heq ▸ hgt)
    simp [rowLe, compareCells_eq_gt hgt, hnot, hne]

theorem rowLe_total (h : List.Forall₂ Alike as bs) : rowLe as bs ∨ rowLe bs as := by
  induction h with
  | nil => exact .inl rfl
  | @cons a b as bs hab _ ih =>
    have hba : Alike b a := by cases hab <;> constructor
    rw [rowLe_cons_iff hab, rowLe_cons_iff hba]
    rcases hab.trichotomy with hlt | rfl | hgt
    · exact .inl (.inl hlt)
    · exact ih.imp (.inr ⟨rfl, ·⟩) (.inr ⟨rfl, ·⟩)
    · exact .inr (.inl hgt)

theorem rowLe_antisymm (h : List.Forall₂ Alike as bs) (hle : rowLe as bs) (hge : rowLe bs as) : as = bs := by
  induction h with
  | nil => rfl
  | @cons a b as bs hab _ ih =>
    have hba : Alike b a := by cases hab <;> constructor
    rw [rowLe_cons_iff hab] at hle
    rw [rowLe_cons_iff hba] at hge
    rcases hle with hlt | ⟨rfl, hle⟩
    · rcases hge with hgt | ⟨rfl, _⟩
      · exact absurd (hlt.trans hgt) (Precedes.irrefl a)
      · exact absurd hlt (Precedes.irrefl b)
    · rcases hge with hgt | ⟨_, hge⟩
      · exact absurd hgt (Precedes.irrefl a)
      · rw [ih hle hge]

theorem rowLe_trans (h : List.Forall₂ Alike as bs) (hnext : List.Forall₂ Alike bs ds) (hle : rowLe as bs)
    (hle' : rowLe bs ds) : rowLe as ds := by
  induction h generalizing ds with
  | nil =>
    cases hnext
    rfl
  | @cons a b as bs hab _ ih =>
    cases hnext with
    | @cons _ d _ ds hbd hrest =>
      have had : Alike a d := by
        cases hab <;> cases hbd <;> constructor
      rw [rowLe_cons_iff hab] at hle
      rw [rowLe_cons_iff hbd] at hle'
      rw [rowLe_cons_iff had]
      rcases hle with hlt | ⟨rfl, hle⟩
      · rcases hle' with hlt' | ⟨rfl, _⟩
        · exact .inl (hlt.trans hlt')
        · exact .inl hlt
      · exact hle'.imp_right fun ⟨heq, hrest'⟩ => ⟨heq, ih hrest hle hrest'⟩

/-! ### Tables -/

section Table

variable {α κ : Type} {cells : κ → List Json}

theorem pairwise_rowLe (halike : ∀ k l, List.Forall₂ Alike (cells k) (cells l)) (keys : List κ) :
    ((keys.map cells).mergeSort rowLe).Pairwise fun x y => rowLe x y := by
  rw [← List.map_mergeSort (r := fun k l => rowLe (cells k) (cells l)) fun _ _ _ _ => rfl]
  refine List.pairwise_map.mpr (List.pairwise_mergeSort (fun k l m => ?_) (fun k l => ?_) keys)
  · exact rowLe_trans (halike k l) (halike l m)
  · simpa using rowLe_total (halike k l)

/-- **Two tables look the same exactly if they have the same rows.** -/
theorem table_eq_iff (key : α → κ) (cells : κ → List Json)
    (halike : ∀ k l, List.Forall₂ Alike (cells k) (cells l)) (hinj : Function.Injective cells)
    (rows others : List α) :
    table (fun x => cells (key x)) rows = table (fun x => cells (key x)) others ↔
      (rows.map key).Perm (others.map key) := by
  have hsorted : table (fun x => cells (key x)) rows = table (fun x => cells (key x)) others ↔
      ((rows.map key).map cells).mergeSort rowLe = ((others.map key).map cells).mergeSort rowLe := by
    have harr : Function.Injective (List.map Json.arr) := List.map_injective_iff.mpr fun _ _ => Json.arr.inj
    simp only [table, Json.arr.injEq, harr.eq_iff, List.map_map, Function.comp_def]
  rw [hsorted, ← List.map_perm_map_iff hinj]
  constructor
  · intro heq
    have hothers := List.mergeSort_perm ((others.map key).map cells) rowLe
    rw [← heq] at hothers
    exact (List.mergeSort_perm _ _).symm.trans hothers
  · intro hperm
    refine List.Perm.eq_of_pairwise (fun x y hx hy => ?_) (pairwise_rowLe halike _) (pairwise_rowLe halike _)
      ((List.mergeSort_perm _ _).trans (hperm.trans (List.mergeSort_perm _ _).symm))
    obtain ⟨k, _, rfl⟩ := List.mem_map.mp (List.mem_mergeSort.mp hx)
    obtain ⟨l, _, rfl⟩ := List.mem_map.mp (List.mem_mergeSort.mp hy)
    exact rowLe_antisymm (halike k l)

end Table

/-! ### Listings -/

/-- What a listing shows of a block, of a chunk and of the other rows. -/
def StoredBlock.shown (b : StoredBlock) : String × String × Int := (b.blockHash, b.storageKey, b.size)

def Chunk.shown (k : Chunk) : String × Int × String × Int × Int :=
  (k.fileHash, k.index, k.blockHash, k.blockSize, k.count)

def StagedChunk.shown (s : StagedChunk) : String × String × Int × String × Int × Int := (s.uploader, s.chunk.shown)

def projectShown (p : Project) : Int × String × String × String := (p.projectId, p.teamId, p.title, p.createdBy)

def commitShown (k : CommitSummary) : Int × Int × String × String × Int × Int :=
  (k.commitId, k.projectId, k.authorId, k.comment, k.fileCount, k.sequenceNumber)

def ProjectGrant.shown (g : ProjectGrant) : String × Int × Int := (g.userId, g.projectId, g.level)

def TeamGrant.shown (g : TeamGrant) : String × String × Int := (g.userId, g.teamId, g.level)

/-- Two catalogs have the same rows apart from their order and their times, and apart from tokens. -/
structure SameShown (c d : Catalog) : Prop where
  blocks : (c.blocks.map StoredBlock.shown).Perm (d.blocks.map StoredBlock.shown)
  chunks : (c.chunks.map Chunk.shown).Perm (d.chunks.map Chunk.shown)
  staged : (c.staged.map StagedChunk.shown).Perm (d.staged.map StagedChunk.shown)
  projects : (c.projects.map projectShown).Perm (d.projects.map projectShown)
  commits : (c.commits.map commitShown).Perm (d.commits.map commitShown)
  revisions : c.revisions.Perm d.revisions
  projectGrants : (c.projectGrants.map ProjectGrant.shown).Perm (d.projectGrants.map ProjectGrant.shown)
  teamGrants : (c.teamGrants.map TeamGrant.shown).Perm (d.teamGrants.map TeamGrant.shown)

/-- **Two catalogs have the same listing exactly if they have the same rows, whatever their order and their times.** -/
theorem listing_eq_iff (c d : Catalog) : c.listing = d.listing ↔ SameShown c d := by
  have hblocks := table_eq_iff StoredBlock.shown (fun (h, k, n) => [.str h, .str k, .int n])
    (fun _ _ => by repeat' constructor) (fun _ _ h => by simpa [Prod.ext_iff] using h) c.blocks d.blocks
  have hchunks := table_eq_iff Chunk.shown (fun (f, i, b, n, m) => [.str f, .int i, .str b, .int n, .int m])
    (fun _ _ => by repeat' constructor) (fun _ _ h => by simpa [Prod.ext_iff] using h) c.chunks d.chunks
  have hstaged := table_eq_iff StagedChunk.shown
    (fun (u, f, i, b, n, m) => [.str u, .str f, .int i, .str b, .int n, .int m])
    (fun _ _ => by repeat' constructor) (fun _ _ h => by simpa [Prod.ext_iff] using h) c.staged d.staged
  have hprojects := table_eq_iff projectShown (fun (i, t, n, u) => [.int i, .str t, .str n, .str u])
    (fun _ _ => by repeat' constructor) (fun _ _ h => by simpa [Prod.ext_iff] using h) c.projects d.projects
  have hcommits := table_eq_iff commitShown
    (fun (i, p, u, m, n, s) => [.int i, .int p, .str u, .str m, .int n, .int s])
    (fun _ _ => by repeat' constructor) (fun _ _ h => by simpa [Prod.ext_iff] using h) c.commits d.commits
  have hrevisions := table_eq_iff id
    (fun r : Revision => [.int r.revisionId, .int r.projectId, .str r.path, .int r.commitId, .str r.contentHash,
      .int r.kind, .int r.chunkCount])
    (fun _ _ => by repeat' constructor) (fun r s h => by cases r; cases s; simpa using h) c.revisions d.revisions
  have hprojectGrants := table_eq_iff ProjectGrant.shown (fun (u, p, l) => [.str u, .int p, .int l])
    (fun _ _ => by repeat' constructor) (fun _ _ h => by simpa [Prod.ext_iff] using h) c.projectGrants d.projectGrants
  have hteamGrants := table_eq_iff TeamGrant.shown (fun (u, t, l) => [.str u, .str t, .int l])
    (fun _ _ => by repeat' constructor) (fun _ _ h => by simpa [Prod.ext_iff] using h) c.teamGrants d.teamGrants
  rw [List.map_id, List.map_id] at hrevisions
  simp only [listing, Json.obj.injEq, List.cons.injEq, Prod.mk.injEq, true_and, and_true]
  constructor
  · rintro ⟨h₁, h₂, h₃, h₄, h₅, h₆, h₇, h₈⟩
    exact ⟨hblocks.mp h₁, hchunks.mp h₂, hstaged.mp h₃, hprojects.mp h₄, hcommits.mp h₅, hrevisions.mp h₆,
      hprojectGrants.mp h₇, hteamGrants.mp h₈⟩
  · intro h
    exact ⟨hblocks.mpr h.blocks, hchunks.mpr h.chunks, hstaged.mpr h.staged, hprojects.mpr h.projects,
      hcommits.mpr h.commits, hrevisions.mpr h.revisions, hprojectGrants.mpr h.projectGrants,
      hteamGrants.mpr h.teamGrants⟩

/-! ### What a listing does not show -/

variable {c next : Catalog} {uploader : String} {k : Chunk}

theorem count_shown (c : Catalog) (u : String) (row : String × Int × String × Int × Int) :
    (c.staged.map StagedChunk.shown).count (u, row) = ((c.stagedFor u row.1).map Chunk.shown).count row := by
  rw [stagedFor, ((List.mergeSort_perm _ byIndex).map Chunk.shown).count_eq]
  simp only [List.count, List.countP_map, List.countP_filter]
  refine List.countP_congr fun s _ => ?_
  obtain ⟨f, i, b, n, m⟩ := row
  simp only [Function.comp_apply, StagedChunk.shown, Chunk.shown, isStagedFor, beq_iff_eq, Bool.and_eq_true,
    Prod.mk.injEq]
  constructor
  · rintro ⟨hu, hf, hrest⟩
    exact ⟨⟨hf, hrest⟩, hu, hf⟩
  · rintro ⟨⟨hf, hrest⟩, hu, -⟩
    exact ⟨hu, hf, hrest⟩

theorem Retimed.sameShown (h : Retimed c uploader k next) : SameShown c next := by
  have hshown (u f : String) : (next.stagedFor u f).map Chunk.shown = (c.stagedFor u f).map Chunk.shown := by
    rw [h.staged, List.map_map]
    refine List.map_congr_left fun row _ => ?_
    simp only [Function.comp_apply, Chunk.retimed]
    split <;> rfl
  have hstaged : (c.staged.map StagedChunk.shown).Perm (next.staged.map StagedChunk.shown) :=
    List.perm_iff_count.mpr fun ⟨u, row⟩ => by rw [count_shown, count_shown, hshown]
  rw [h.frame]
  exact ⟨.rfl, .rfl, hstaged, .rfl, .rfl, .rfl, .rfl, .rfl⟩

/-- **Registering a chunk again is not seen in a listing.** -/
theorem Retimed.listing_eq (h : Retimed c uploader k next) : next.listing = c.listing :=
  ((listing_eq_iff c next).mpr h.sameShown).symm

end Depot.Catalog
