import Depot.Proofs.Catalog.Content

/-!
# What a registration depends on

Whether a chunk is accepted depends on the rows of its file, on what its uploader has staged for the file, and on
whether its block is recorded (`registerChunk_congr`). A chunk that is accepted is staged or catalogued afterwards
(`holds_registerChunk`), and stays so while others register chunks of other files.
-/

namespace Depot.Catalog

open Content

variable {c next d : Catalog} {uploader fileHash : String} {k : Chunk}

/-! ### Blocks -/

theorem block?_putBlock (c : Catalog) (row : StoredBlock) (blockHash : String) :
    (c.putBlock row).2.block? blockHash =
      (c.block? blockHash).or (if row.blockHash = blockHash then some row else none) := by
  have hrow : ([row].find? fun b => b.blockHash == blockHash) =
      if row.blockHash = blockHash then some row else none := by
    by_cases h : row.blockHash = blockHash <;> simp [h]
  unfold putBlock
  split
  · rename_i known hknown
    split
    · rename_i heq
      rw [heq] at hknown
      rw [hknown]
      rfl
    · rw [Option.or_none]
  · rw [block?, List.find?_append, hrow]
    rfl

theorem block?_deleteBlock_of_ne {gone blockHash : String} (hne : gone ≠ blockHash) :
    (c.commitOr (c.deleteBlock gone)).2.block? blockHash = c.block? blockHash := by
  unfold deleteBlock
  split
  · rfl
  · split
    · rfl
    · change (c.blocks.filter fun b => b.blockHash != gone).find? _ = _
      rw [List.find?_filter, block?]
      congr 1
      funext b
      by_cases h : b.blockHash = blockHash
      · simp [h, Ne.symm hne]
      · simp [h]

theorem block?_registerChunk (c : Catalog) (uploader : String) (k : Chunk) (blockHash : String) :
    (c.registerChunk uploader k).2.block? blockHash = c.block? blockHash := by
  rw [block?, blocks_registerChunk, block?]

/-! ### Rows of one file -/

/-- Two catalogs have the same rows of a file, and the same rows that an uploader has staged for it. -/
structure SameFile (uploader fileHash : String) (c next : Catalog) : Prop where
  chunks : (next.chunks.filter fun k => k.fileHash == fileHash) = c.chunks.filter fun k => k.fileHash == fileHash
  staged : next.staged.filter (isStagedFor uploader fileHash) = c.staged.filter (isStagedFor uploader fileHash)

theorem SameFile.refl (uploader fileHash : String) (c : Catalog) : SameFile uploader fileHash c c := ⟨rfl, rfl⟩

theorem SameFile.symm (h : SameFile uploader fileHash c next) : SameFile uploader fileHash next c :=
  ⟨h.chunks.symm, h.staged.symm⟩

theorem SameFile.trans (h : SameFile uploader fileHash c d) (hnext : SameFile uploader fileHash d next) :
    SameFile uploader fileHash c next :=
  ⟨hnext.chunks.trans h.chunks, hnext.staged.trans h.staged⟩

theorem sameFile_of_eq (hchunks : next.chunks = c.chunks) (hstaged : next.staged = c.staged) :
    SameFile uploader fileHash c next :=
  ⟨by rw [hchunks], by rw [hstaged]⟩

theorem SameFile.listChunks_eq (h : SameFile uploader fileHash c next) :
    next.listChunks fileHash = c.listChunks fileHash := by
  rw [listChunks, h.chunks, listChunks]

theorem SameFile.stagedFor_eq (h : SameFile uploader fileHash c next) :
    next.stagedFor uploader fileHash = c.stagedFor uploader fileHash := by
  rw [stagedFor, h.staged, stagedFor]

theorem sameFile_registerChunk_of_ne {u : String} (hne : k.fileHash ≠ fileHash) :
    SameFile uploader fileHash c (c.registerChunk u k).2 := by
  have hother : ¬(uploader = u ∧ fileHash = k.fileHash) := fun heq => hne heq.2.symm
  have h := registered c u k
  generalize c.registerChunk u k = result at h
  cases h with
  | confirmed _ _ => exact ⟨rfl, filter_staged_unstage hother⟩
  | dropped _ _ _ => exact ⟨rfl, filter_staged_unstage hother⟩
  | staged _ _ => exact ⟨rfl, filter_staged_stage hother⟩
  | promoted _ _ _ => exact ⟨filter_chunks_withFile_of_ne c u (Ne.symm hne), filter_staged_unstage hother⟩
  | _ => exact .refl _ _ _

/-! ### Whether a chunk is accepted -/

theorem SameFile.stagedWith_eq (h : SameFile uploader k.fileHash c next) :
    next.stagedWith uploader k = c.stagedWith uploader k := by
  have hrows : ∀ e : Catalog, (e.stage uploader k).staged.filter (isStagedFor uploader k.fileHash) =
      (e.staged.filter (isStagedFor uploader k.fileHash)).filter
        (fun s => !(isStagedFor uploader k.fileHash s && (s.chunk.count != k.count || s.chunk.index == k.index))) ++
      [⟨uploader, k⟩] := by
    intro e
    rw [stage, List.filter_append, List.filter_cons_of_pos (by simp [isStagedFor]), List.filter_nil,
      List.filter_filter, List.filter_filter]
    congr 1
    exact List.filter_congr fun s _ => Bool.and_comm _ _
  simp only [stagedWith, stagedFor, hrows, h.staged]

theorem registerChunk_congr (h : SameFile uploader k.fileHash c next) (hblock : (c.block? k.blockHash).isSome)
    (hblockNext : (next.block? k.blockHash).isSome) :
    (next.registerChunk uploader k).1 = (c.registerChunk uploader k).1 := by
  have hconfirm : ∀ known, next.confirm known k = c.confirm known k := fun known => by
    rw [confirm, confirm, h.listChunks_eq]
  have hsome : ∀ e : Catalog, (e.block? k.blockHash).isSome → ¬(e.block? k.blockHash).isNone := fun e he => by
    simpa using Option.isSome_iff_ne_none.mp he
  have hstaged : (next.stage uploader k).stagedFor uploader k.fileHash =
      (c.stage uploader k).stagedFor uploader k.fileHash := h.stagedWith_eq
  unfold registerChunk
  split
  · rfl
  · rw [h.listChunks_eq]
    cases c.listChunks k.fileHash with
    | cons known rest =>
      dsimp only
      rw [hconfirm]
      cases c.confirm known k <;> rfl
    | nil =>
      dsimp only
      rw [if_neg (hsome next hblockNext), if_neg (hsome c hblock)]
      unfold promote
      dsimp only
      rw [hstaged]
      split
      · rfl
      · split <;> rfl

/-! ### Chunks that were accepted -/

/-- A chunk is staged by its uploader, or catalogued at its place. -/
def Holds (c : Catalog) (uploader : String) (k : Chunk) : Prop :=
  k ∈ c.stagedFor uploader k.fileHash ∨
    ∃ row ∈ c.listChunks k.fileHash, row.index = k.index ∧ row.count = k.count ∧ row.blockHash = k.blockHash

theorem SameFile.holds (h : SameFile uploader k.fileHash c next) (hheld : c.Holds uploader k) :
    next.Holds uploader k := by
  rw [Holds, h.stagedFor_eq, h.listChunks_eq]
  exact hheld

theorem exists_row_of_confirm {known : Chunk} (h : ContentSound c) (hknown : known ∈ c.listChunks k.fileHash)
    (hconfirm : c.confirm known k = .ok ()) :
    ∃ row ∈ c.listChunks k.fileHash, row.index = k.index ∧ row.count = k.count ∧ row.blockHash = k.blockHash := by
  obtain ⟨n, hfile⟩ := h.files k.fileHash (List.ne_nil_of_mem hknown)
  have hcount : ∀ row ∈ c.listChunks k.fileHash, row.count = n := fun row hrow =>
    hfile.counts row (mem_listChunks.mp hrow).1 (mem_listChunks.mp hrow).2
  unfold confirm at hconfirm
  split at hconfirm
  · cases hconfirm
  · rename_i hsame
    split at hconfirm
    · cases hconfirm
    · rename_i row hfound
      have hrow := List.mem_of_find?_eq_some hfound
      have hindex : row.index = k.index := by simpa using List.find?_some hfound
      split at hconfirm
      · cases hconfirm
      · exact ⟨row, hrow, hindex, by rw [hcount row hrow, ← hcount known hknown, not_not.mp hsame],
          not_not.mp ‹_›⟩

theorem holds_registerChunk (h : ContentSound c) {outcome : InsertOutcome}
    (hok : (c.registerChunk uploader k).1 = .ok outcome) : (c.registerChunk uploader k).2.Holds uploader k := by
  have hregistered := registered c uploader k
  generalize c.registerChunk uploader k = result at hregistered hok
  cases hregistered with
  | confirmed catalogued same =>
    exact .inr (exists_row_of_confirm (c := c) h (catalogued ▸ List.mem_cons_self) same)
  | staged _ _ => exact .inl (mem_stagedWith.mpr (.inl rfl))
  | promoted can _ _ =>
    refine .inr ⟨k, ?_, rfl, rfl, rfl⟩
    rw [listChunks_withFile uploader can.uncatalogued]
    exact mem_stagedWith.mpr (.inl rfl)
  | _ => cases hok

end Depot.Catalog
