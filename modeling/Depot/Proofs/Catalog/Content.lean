import Depot.Proofs.Catalog.Frame
import Depot.Proofs.Catalog.Tables

/-!
# Content of reachable catalogs

A file whose chunks are in the catalog has all of them there, and their blocks compose its hash. What an
uploader has staged is some of the positions of one number of chunks, never all of them. Every request keeps
both (`contentSound_step`), so in a catalog that requests have made, every test for a file answers the same.
-/

namespace Depot.Catalog

open Content Time

variable {c next : Catalog} {uploader fileHash : String} {k : Chunk} {n : Nat}

/-! ### The rows of one file -/

theorem mem_listChunks : k ∈ c.listChunks fileHash ↔ k ∈ c.chunks ∧ k.fileHash = fileHash := by
  simp [listChunks]

theorem mem_stagedFor :
    k ∈ c.stagedFor uploader fileHash ↔ ⟨uploader, k⟩ ∈ c.staged ∧ k.fileHash = fileHash := by
  simp only [stagedFor, List.mem_mergeSort, List.mem_map, List.mem_filter, isStagedFor, Bool.and_eq_true,
    beq_iff_eq]
  constructor
  · rintro ⟨s, ⟨hs, rfl, hfile⟩, rfl⟩
    exact ⟨hs, hfile⟩
  · rintro ⟨hs, hfile⟩
    exact ⟨_, ⟨hs, rfl, hfile⟩, rfl⟩

theorem pairwise_stagedFor (c : Catalog) (uploader fileHash : String) :
    (c.stagedFor uploader fileHash).Pairwise fun a b => byIndex a b = true :=
  List.pairwise_mergeSort byIndex_trans byIndex_total _

theorem length_listChunks (c : Catalog) (fileHash : String) :
    (c.listChunks fileHash).length = (c.chunks.filter fun k => k.fileHash == fileHash).length :=
  List.length_mergeSort _

theorem listChunks_eq_nil_iff :
    c.listChunks fileHash = [] ↔ (c.chunks.filter fun k => k.fileHash == fileHash) = [] := by
  rw [← List.length_eq_zero_iff, length_listChunks, List.length_eq_zero_iff]

/-! ### Staged rows -/

theorem stagedFor_unstage_self (c : Catalog) (uploader fileHash : String) :
    (c.unstage uploader fileHash).stagedFor uploader fileHash = [] := by
  apply List.eq_nil_iff_forall_not_mem.mpr
  intro k hk
  obtain ⟨hmem, hfile⟩ := mem_stagedFor.mp hk
  simpa [isStagedFor, hfile] using (List.mem_filter.mp hmem).2

theorem filter_staged_unstage {u f : String} (hne : ¬(u = uploader ∧ f = fileHash)) :
    (c.unstage uploader fileHash).staged.filter (isStagedFor u f) = c.staged.filter (isStagedFor u f) := by
  rw [unstage, List.filter_filter]
  apply List.filter_congr
  intro s _
  simp only [isStagedFor]
  grind

theorem stagedFor_unstage_of_ne {u f : String} (hne : ¬(u = uploader ∧ f = fileHash)) :
    (c.unstage uploader fileHash).stagedFor u f = c.stagedFor u f := by
  rw [stagedFor, filter_staged_unstage hne, stagedFor]

theorem filter_staged_stage {u f : String} (hne : ¬(u = uploader ∧ f = k.fileHash)) :
    (c.stage uploader k).staged.filter (isStagedFor u f) = c.staged.filter (isStagedFor u f) := by
  have hnew : ([⟨uploader, k⟩] : List StagedChunk).filter (isStagedFor u f) = [] := by
    simp only [List.filter_eq_nil_iff, List.mem_singleton, forall_eq, isStagedFor]
    grind
  rw [stage, List.filter_append, List.filter_filter, hnew, List.append_nil]
  apply List.filter_congr
  intro s _
  simp only [isStagedFor]
  grind

theorem stagedFor_stage_of_ne {u f : String} (hne : ¬(u = uploader ∧ f = k.fileHash)) :
    (c.stage uploader k).stagedFor u f = c.stagedFor u f := by
  rw [stagedFor, filter_staged_stage hne, stagedFor]

theorem stagedWith_perm (c : Catalog) (uploader : String) (k : Chunk) :
    (c.stagedWith uploader k).Perm
      (k :: (c.stagedFor uploader k.fileHash).filter fun j => j.count == k.count && j.index != k.index) := by
  apply (List.mergeSort_perm _ _).trans
  have hkeep : ((c.stage uploader k).staged.filter (isStagedFor uploader k.fileHash)).map StagedChunk.chunk =
      ((c.staged.filter (isStagedFor uploader k.fileHash)).map StagedChunk.chunk).filter
        (fun j => j.count == k.count && j.index != k.index) ++ [k] := by
    unfold stage
    rw [List.filter_append, List.filter_filter, List.map_append, List.filter_map, List.filter_filter]
    have hnew : ([⟨uploader, k⟩] : List StagedChunk).filter (isStagedFor uploader k.fileHash) =
        [⟨uploader, k⟩] := by simp [isStagedFor]
    rw [hnew]
    congr 2
    apply List.filter_congr
    intro s _
    cases hs : isStagedFor uploader k.fileHash s <;> simp [hs, bne]
  rw [hkeep]
  refine (List.perm_append_singleton _ _).trans (List.Perm.cons _ ?_)
  exact ((List.mergeSort_perm _ _).filter _).symm

theorem mem_stagedWith {j : Chunk} :
    j ∈ c.stagedWith uploader k ↔
      j = k ∨ j ∈ c.stagedFor uploader k.fileHash ∧ j.count = k.count ∧ j.index ≠ k.index := by
  rw [(stagedWith_perm c uploader k).mem_iff]
  simp

theorem confirm_eq_ok {known row chunk : Chunk} (hcount : known.count = chunk.count)
    (hfound : ((c.listChunks chunk.fileHash).find? fun k => k.index == chunk.index) = some row)
    (hhash : row.blockHash = chunk.blockHash) : c.confirm known chunk = .ok () := by
  rw [confirm, if_neg (not_not.mpr hcount), hfound]
  simp [hhash]

theorem registerChunk_first (hinside : 0 ≤ k.index ∧ k.index < k.count)
    (hseveral : 1 < k.count) (hfile : c.listChunks k.fileHash = []) (hblock : (c.block? k.blockHash).isSome)
    (hstaged : c.stagedFor uploader k.fileHash = []) :
    c.registerChunk uploader k = (.ok .inserted, c.stage uploader k) := by
  have hone : ((c.stagedWith uploader k).length : Int) = 1 := by
    rw [(stagedWith_perm c uploader k).length_eq, hstaged]
    rfl
  have h := registered c uploader k
  generalize c.registerChunk uploader k = result at h
  cases h with
  | staged _ _ => rfl
  | outside position => omega
  | mismatch catalogued _ => cases hfile.symm.trans catalogued
  | confirmed catalogued _ => cases hfile.symm.trans catalogued
  | unrecorded _ absent =>
    rw [absent] at hblock
    cases hblock
  | promoted _ whole _ => omega
  | dropped _ whole _ => omega

/-! ### Rows that a registration leaves -/

theorem blocks_registerChunk (c : Catalog) (uploader : String) (k : Chunk) :
    (c.registerChunk uploader k).2.blocks = c.blocks := by
  obtain ⟨_, _, h⟩ := registerChunk_eq c uploader k
  rw [h]

theorem mem_chunks_registerChunk {j : Chunk} (hj : j ∈ (c.registerChunk uploader k).2.chunks) :
    j ∈ c.chunks ∨ (∃ u, ⟨u, j⟩ ∈ c.staged) ∨ j = k := by
  have h := registered c uploader k
  generalize c.registerChunk uploader k = result at h hj
  cases h with
  | promoted _ _ _ =>
    rcases List.mem_append.mp hj with hold | hnew
    · exact .inl hold
    · rcases mem_stagedWith.mp hnew with rfl | ⟨hstaged, _⟩
      · exact .inr (.inr rfl)
      · exact .inr (.inl ⟨uploader, (mem_stagedFor.mp hstaged).1⟩)
  | _ => exact .inl hj

theorem mem_staged_registerChunk {j : StagedChunk} (hj : j ∈ (c.registerChunk uploader k).2.staged) :
    j ∈ c.staged ∨ j = ⟨uploader, k⟩ := by
  have h := registered c uploader k
  generalize c.registerChunk uploader k = result at h hj
  cases h with
  | confirmed _ _ => exact .inl (List.mem_filter.mp hj).1
  | dropped _ _ _ => exact .inl (List.mem_filter.mp hj).1
  | promoted _ _ _ => exact .inl (List.mem_filter.mp hj).1
  | staged _ _ =>
    rcases List.mem_append.mp hj with hold | hnew
    · exact .inl (List.mem_filter.mp hold).1
    · exact .inr (List.mem_singleton.mp hnew)
  | _ => exact .inl hj

theorem stagedFor_registerChunk_of_ne {u f : String} (hne : u ≠ uploader) :
    (c.registerChunk uploader k).2.stagedFor u f = c.stagedFor u f := by
  have h := registered c uploader k
  generalize c.registerChunk uploader k = result at h
  cases h with
  | staged _ _ => exact stagedFor_stage_of_ne fun heq => hne heq.1
  | confirmed _ _ => exact stagedFor_unstage_of_ne fun heq => hne heq.1
  | dropped _ _ _ => exact stagedFor_unstage_of_ne fun heq => hne heq.1
  | promoted _ _ _ => exact stagedFor_unstage_of_ne fun heq => hne heq.1
  | _ => rfl

/-! ### Soundness -/

/-- Some blocks of the catalog have these rows' hashes. -/
def BlocksRecorded (c : Catalog) (rows : List Chunk) : Prop :=
  ∀ k ∈ rows, (c.block? k.blockHash).isSome

/-- A file is in the catalog with all of its `n` chunks. -/
structure FileSound (c : Catalog) (fileHash : String) (n : Nat) : Prop where
  positive : 1 ≤ n
  counts : ∀ k ∈ c.chunks, k.fileHash = fileHash → k.count = n
  indexes : (c.listChunks fileHash).map Chunk.index = (List.range n).map Int.ofNat
  recorded : BlocksRecorded c (c.listChunks fileHash)
  composes : blocksCompose fileHash ((c.listChunks fileHash).map Chunk.blockHash)

theorem index_getElem {rows : List Chunk} {m n : Nat} (hindexes : rows.map Chunk.index = (List.range n).map Int.ofNat)
    (hm : m < rows.length) : rows[m].index = m := by
  have hlength : rows.length = n := by simpa using congrArg List.length hindexes
  have hat := congrArg (fun l => l[m]?) hindexes
  simpa [hm, hlength ▸ hm] using hat

theorem FileSound.length_eq {n : Nat} (h : FileSound c fileHash n) : (c.listChunks fileHash).length = n := by
  simpa using congrArg List.length h.indexes

/-- What an uploader has staged for a file is some of `n` positions, and not all of them. -/
structure StagingSound (c : Catalog) (uploader fileHash : String) (n : Nat) : Prop where
  counts : ∀ k ∈ c.stagedFor uploader fileHash, k.count = n
  inside : ∀ k ∈ c.stagedFor uploader fileHash, 0 ≤ k.index ∧ k.index < n
  distinct : ((c.stagedFor uploader fileHash).map Chunk.index).Nodup
  partly : (c.stagedFor uploader fileHash).length < n
  recorded : BlocksRecorded c (c.stagedFor uploader fileHash)

/-- All catalogued files and all staged sets are sound. -/
structure ContentSound (c : Catalog) : Prop where
  files : ∀ fileHash, c.listChunks fileHash ≠ [] → ∃ n, FileSound c fileHash n
  staging : ∀ uploader fileHash, ∃ n, StagingSound c uploader fileHash n

theorem ContentSound.recorded (h : ContentSound c) (hk : k ∈ c.chunks ∨ ∃ u, ⟨u, k⟩ ∈ c.staged) :
    (c.block? k.blockHash).isSome := by
  rcases hk with hchunk | ⟨u, hstaged⟩
  · have hmem := mem_listChunks.mpr ⟨hchunk, rfl⟩
    obtain ⟨n, hn⟩ := h.files k.fileHash (List.ne_nil_of_mem hmem)
    exact hn.recorded k hmem
  · obtain ⟨n, hn⟩ := h.staging u k.fileHash
    exact hn.recorded k (mem_stagedFor.mpr ⟨hstaged, rfl⟩)

theorem stagingSound_of_nil (h : c.stagedFor uploader fileHash = []) : StagingSound c uploader fileHash 1 where
  counts := by simp [h]
  inside := by simp [h]
  distinct := by simp [h]
  partly := by simp [h]
  recorded := by simp [BlocksRecorded, h]

theorem contentSound_empty : ContentSound Catalog.empty where
  files f h := absurd (by simp [Catalog.empty, listChunks]) h
  staging u f := ⟨1, stagingSound_of_nil (by simp [Catalog.empty, stagedFor])⟩

/-! ### Requests keep content sound -/

theorem FileSound.transfer (h : FileSound c fileHash n)
    (hrows : (next.chunks.filter fun k => k.fileHash == fileHash) = c.chunks.filter fun k => k.fileHash == fileHash)
    (hblocks : BlocksRecorded c (c.listChunks fileHash) → BlocksRecorded next (c.listChunks fileHash)) :
    FileSound next fileHash n := by
  have hlist : next.listChunks fileHash = c.listChunks fileHash := by
    simp only [listChunks, hrows]
  refine ⟨h.positive, fun k hk hfile => ?_, hlist ▸ h.indexes, hlist ▸ hblocks h.recorded, hlist ▸ h.composes⟩
  have hmem : k ∈ next.chunks.filter fun k => k.fileHash == fileHash := List.mem_filter.mpr ⟨hk, by simpa using hfile⟩
  rw [hrows] at hmem
  exact h.counts k (List.mem_filter.mp hmem).1 hfile

theorem StagingSound.transfer (h : StagingSound c uploader fileHash n)
    (hrows : next.stagedFor uploader fileHash = c.stagedFor uploader fileHash)
    (hblocks : BlocksRecorded c (c.stagedFor uploader fileHash) →
      BlocksRecorded next (c.stagedFor uploader fileHash)) : StagingSound next uploader fileHash n :=
  ⟨hrows ▸ h.counts, hrows ▸ h.inside, hrows ▸ h.distinct, hrows ▸ h.partly, hrows ▸ hblocks h.recorded⟩

theorem ContentSound.transfer (h : ContentSound c) (hchunks : next.chunks = c.chunks)
    (hstaged : next.staged = c.staged)
    (hblocks : ∀ k, (k ∈ c.chunks ∨ ∃ u, ⟨u, k⟩ ∈ c.staged) → (c.block? k.blockHash).isSome →
      (next.block? k.blockHash).isSome) : ContentSound next where
  files f hne := by
    have hlist : next.listChunks f = c.listChunks f := by simp only [listChunks, hchunks]
    obtain ⟨n, hn⟩ := h.files f (hlist ▸ hne)
    refine ⟨n, hn.transfer (by rw [hchunks]) fun hrecorded k hk => ?_⟩
    exact hblocks k (.inl (mem_listChunks.mp hk).1) (hrecorded k hk)
  staging u f := by
    obtain ⟨n, hn⟩ := h.staging u f
    refine ⟨n, hn.transfer (by simp only [stagedFor, hstaged]) fun hrecorded k hk => ?_⟩
    exact hblocks k (.inr ⟨u, (mem_stagedFor.mp hk).1⟩) (hrecorded k hk)

theorem contentSound_recorded {block : StoredBlock} (h : ContentSound c) :
    ContentSound { c with blocks := c.blocks ++ [block] } := by
  refine h.transfer rfl rfl fun k _ hk => ?_
  simp only [block?, List.find?_append] at hk ⊢
  rw [Option.isSome_or]
  simp [hk]

theorem contentSound_removed {blockHash : String} (free : c.isReferenced blockHash = false)
    (h : ContentSound c) :
    ContentSound { c with blocks := c.blocks.filter fun b => b.blockHash != blockHash } := by
  simp only [isReferenced, Bool.or_eq_false_iff, List.any_eq_false, beq_iff_eq] at free
  refine h.transfer rfl rfl fun k hrow hk => ?_
  have hne : k.blockHash ≠ blockHash := by
    rcases hrow with hchunk | ⟨u, hstaged⟩
    · exact free.1 k hchunk
    · exact free.2 _ hstaged
  simp only [block?, List.find?_isSome, beq_iff_eq, List.mem_filter, bne_iff_ne] at hk ⊢
  obtain ⟨b, hb, hhash⟩ := hk
  exact ⟨b, ⟨hb, hhash ▸ hne⟩, hhash⟩

theorem contentSound_unstage (h : ContentSound c) (uploader fileHash : String) :
    ContentSound (c.unstage uploader fileHash) where
  files f hne := by
    obtain ⟨n, hn⟩ := h.files f hne
    exact ⟨n, hn.transfer rfl id⟩
  staging u f := by
    by_cases heq : u = uploader ∧ f = fileHash
    · obtain ⟨rfl, rfl⟩ := heq
      exact ⟨1, stagingSound_of_nil (stagedFor_unstage_self c u f)⟩
    · obtain ⟨n, hn⟩ := h.staging u f
      exact ⟨n, hn.transfer (stagedFor_unstage_of_ne heq) id⟩

/-- What is staged once a chunk is. -/
structure StagedTogether (c : Catalog) (uploader : String) (k : Chunk) : Prop where
  counts : ∀ j ∈ c.stagedWith uploader k, j.count = k.count
  inside : ∀ j ∈ c.stagedWith uploader k, 0 ≤ j.index ∧ j.index < k.count.toNat
  distinct : ((c.stagedWith uploader k).map Chunk.index).Nodup
  recorded : BlocksRecorded c (c.stagedWith uploader k)

theorem stagedTogether (uploader : String) (h : ContentSound c) (can : c.Stageable k) :
    StagedTogether c uploader k := by
  obtain ⟨n, hn⟩ := h.staging uploader k.fileHash
  have hcount := can.inside
  refine ⟨fun j hj => ?_, fun j hj => ?_, ?_, fun j hj => ?_⟩
  · rcases mem_stagedWith.mp hj with rfl | ⟨_, hcount, _⟩
    · rfl
    · exact hcount
  · rcases mem_stagedWith.mp hj with rfl | ⟨hold, hsame, _⟩
    · omega
    · have := hn.counts j hold
      have := hn.inside j hold
      omega
  · rw [((stagedWith_perm c uploader k).map Chunk.index).nodup_iff, List.map_cons, List.nodup_cons]
    refine ⟨fun hmem => ?_, hn.distinct.sublist (List.filter_sublist.map _)⟩
    obtain ⟨j, hj, hindex⟩ := List.mem_map.mp hmem
    simp [hindex] at hj
  · rcases mem_stagedWith.mp hj with rfl | ⟨hold, _⟩
    · exact can.recorded
    · exact hn.recorded j hold

theorem contentSound_staged (h : ContentSound c) (can : c.Stageable k)
    (partly : ((c.stagedWith uploader k).length : Int) ≠ k.count) : ContentSound (c.stage uploader k) where
  files f hne := by
    obtain ⟨n, hn⟩ := h.files f hne
    exact ⟨n, hn.transfer rfl id⟩
  staging u f := by
    by_cases heq : u = uploader ∧ f = k.fileHash
    · obtain ⟨rfl, rfl⟩ := heq
      -- Distinct indexes below the count are at most as many; here they are not as many.
      have hall := stagedTogether u h can
      have hcount := can.inside
      have hmost := length_le_of_indexes hall.inside hall.distinct
      refine ⟨k.count.toNat, fun j hj => ?_, hall.inside, hall.distinct, ?_, hall.recorded⟩
      · have := hall.counts j hj
        omega
      · change (c.stagedWith u k).length < k.count.toNat
        omega
    · obtain ⟨n, hn⟩ := h.staging u f
      exact ⟨n, hn.transfer (stagedFor_stage_of_ne heq) id⟩

theorem listChunks_withFile (uploader : String) (habsent : c.listChunks k.fileHash = []) :
    (c.withFile uploader k).listChunks k.fileHash = c.stagedWith uploader k := by
  have hnone := listChunks_eq_nil_iff.mp habsent
  have hown : (c.stagedWith uploader k).filter (fun j => j.fileHash == k.fileHash) = c.stagedWith uploader k := by
    apply List.filter_eq_self.mpr
    intro j hj
    simpa using (mem_stagedFor.mp hj).2
  simp only [listChunks, withFile, List.filter_append, hnone, List.nil_append, hown]
  exact List.mergeSort_of_pairwise (pairwise_stagedFor _ _ _)

theorem filter_chunks_withFile_of_ne (c : Catalog) (uploader : String) {f : String} (hne : f ≠ k.fileHash) :
    ((c.withFile uploader k).chunks.filter fun j => j.fileHash == f) =
      c.chunks.filter fun j => j.fileHash == f := by
  have hnone : (c.stagedWith uploader k).filter (fun j => j.fileHash == f) = [] := by
    apply List.filter_eq_nil_iff.mpr
    intro j hj
    simpa [(mem_stagedFor.mp hj).2] using hne.symm
  simp only [withFile, List.filter_append, hnone, List.append_nil]

theorem contentSound_promoted (h : ContentSound c) (can : c.Stageable k)
    (whole : ((c.stagedWith uploader k).length : Int) = k.count)
    (composes : blocksCompose k.fileHash ((c.stagedWith uploader k).map Chunk.blockHash)) :
    ContentSound (c.withFile uploader k) where
  files f hne := by
    by_cases heq : f = k.fileHash
    · subst heq
      have hall := stagedTogether uploader h can
      have hcount := can.inside
      have hlist := listChunks_withFile uploader can.uncatalogued
      have hsorted : (c.stagedWith uploader k).mergeSort byIndex = c.stagedWith uploader k :=
        List.mergeSort_of_pairwise (pairwise_stagedFor _ _ _)
      refine ⟨k.count.toNat, by omega, fun j hj hfile => ?_, ?_, ?_, ?_⟩
      · have hmem := mem_listChunks.mpr ⟨hj, hfile⟩
        have := hall.counts j (hlist ▸ hmem)
        omega
      · rw [hlist, ← hsorted]
        exact indexes_mergeSort hall.inside hall.distinct (by omega)
      · rw [hlist]
        exact hall.recorded
      · rw [hlist]
        exact composes
    · have hrows := filter_chunks_withFile_of_ne c uploader heq
      have hlist : c.listChunks f ≠ [] := by
        intro hnil
        refine hne (listChunks_eq_nil_iff.mpr ?_)
        rw [← listChunks_eq_nil_iff.mp hnil, ← hrows]
      obtain ⟨n, hn⟩ := h.files f hlist
      exact ⟨n, hn.transfer hrows id⟩
  staging u f := by
    obtain ⟨n, hn⟩ := (contentSound_unstage h uploader k.fileHash).staging u f
    exact ⟨n, hn.transfer rfl id⟩

theorem contentSound_step (hstep : Step c next) (h : ContentSound c) : ContentSound next := by
  cases hstep with
  | recorded _ => exact contentSound_recorded h
  | removed free => exact contentSound_removed free h
  | confirmed _ => exact contentSound_unstage h _ _
  | staged can partly => exact contentSound_staged h can partly
  | dropped _ _ => exact contentSound_unstage h _ _
  | promoted can whole composes => exact contentSound_promoted h can whole composes
  | _ => exact h.transfer rfl rfl fun _ _ hk => hk

theorem contentSound_after (requests : List Request) : ContentSound (Catalog.empty.after requests) :=
  after_induction (fun _ _ => contentSound_step) contentSound_empty requests

/-! ### Files stay in the catalog -/

theorem filter_chunks_step (hstep : Step c next) (hne : c.listChunks fileHash ≠ []) :
    (next.chunks.filter fun k => k.fileHash == fileHash) = c.chunks.filter fun k => k.fileHash == fileHash := by
  cases hstep with
  | promoted can _ _ =>
    refine filter_chunks_withFile_of_ne c _ fun heq => hne ?_
    rw [heq]
    exact can.uncatalogued
  | _ => rfl

theorem listChunks_step (hstep : Step c next) (hne : c.listChunks fileHash ≠ []) :
    next.listChunks fileHash = c.listChunks fileHash := by
  simp only [listChunks, filter_chunks_step hstep hne]

theorem listChunks_after (requests : List Request) (hne : c.listChunks fileHash ≠ []) :
    (c.after requests).listChunks fileHash = c.listChunks fileHash :=
  after_induction (P := fun d => d.listChunks fileHash = c.listChunks fileHash)
    (fun _ _ hstep hd => (listChunks_step hstep (hd ▸ hne)).trans hd) rfl requests

/-! ### Tests for a file -/

theorem FileSound.completeCount?_eq (h : FileSound c fileHash n) : c.completeCount? fileHash = some (n : Int) := by
  have hlength : (c.chunks.filter fun k => k.fileHash == fileHash).length = n := by
    rw [← length_listChunks]
    simpa using congrArg List.length h.indexes
  have hne : (c.chunks.filter fun k => k.fileHash == fileHash) ≠ [] := by
    rw [← List.length_pos_iff, hlength]
    exact h.positive
  have hgreatest :
      greatest? ((c.chunks.filter fun k => k.fileHash == fileHash).map Chunk.count) = some (n : Int) := by
    refine greatest?_of_forall_eq (by simpa using hne) fun m hm => ?_
    obtain ⟨k, hk, rfl⟩ := List.mem_map.mp hm
    obtain ⟨hmem, hfile⟩ := List.mem_filter.mp hk
    exact h.counts k hmem (by simpa using hfile)
  simp [completeCount?, hgreatest, hlength]

theorem completeCount?_eq_none (h : c.listChunks fileHash = []) : c.completeCount? fileHash = none := by
  simp [completeCount?, listChunks_eq_nil_iff.mp h, greatest?]

theorem listChunks_ne_nil_of_completeCount? {n : Int} (h : c.completeCount? fileHash = some n) :
    c.listChunks fileHash ≠ [] := fun hnil => by
  rw [completeCount?_eq_none hnil] at h
  cases h

theorem isFileComplete_iff (h : ContentSound c) : c.isFileComplete fileHash ↔ c.listChunks fileHash ≠ [] := by
  constructor
  · intro hcomplete hnil
    simp [isFileComplete, completeCount?_eq_none hnil] at hcomplete
  · intro hne
    obtain ⟨n, hn⟩ := h.files fileHash hne
    simp [isFileComplete, hn.completeCount?_eq]

theorem mem_missingFiles {files : List String} :
    fileHash ∈ c.missingFiles files ↔ fileHash ∈ files ∧ c.isFileComplete fileHash = false := by
  simp [missingFiles]

theorem mem_distinctHashes {drafts : List RevisionDraft} :
    fileHash ∈ distinctHashes drafts ↔ fileHash ∈ drafts.map RevisionDraft.contentHash := by
  simp [distinctHashes]

/-- A commit is refused because of this file, among others. -/
def RefusedFor (c : Catalog) (draft : CommitDraft) (fileHash : String) : Prop :=
  ∃ missing, (c.answer (.createCommit draft)).1 = .ok (.missingContent missing) ∧ fileHash ∈ missing

theorem refusedFor_iff {draft : CommitDraft} (hproject : (c.project? draft.projectId).isSome) :
    RefusedFor c draft fileHash ↔ fileHash ∈ c.missingFiles (distinctHashes draft.revisions) := by
  unfold RefusedFor
  simp only [answer, createCommit_eq c draft hproject]
  split
  · rename_i hnone
    simp [hnone, commitOr]
  · rename_i missing _
    simp [commitOr]

/-- All tests for a file answer what a look for one of its rows does. -/
structure PresenceAgrees (c : Catalog) (fileHash : String) : Prop where
  complete : c.isFileComplete fileHash ↔ c.listChunks fileHash ≠ []
  missing : ∀ files, fileHash ∈ files → (fileHash ∉ c.missingFiles files ↔ c.listChunks fileHash ≠ [])
  refused : ∀ draft, (c.project? draft.projectId).isSome →
    fileHash ∈ draft.revisions.map RevisionDraft.contentHash →
    (¬RefusedFor c draft fileHash ↔ c.listChunks fileHash ≠ [])

theorem presenceAgrees (h : ContentSound c) (fileHash : String) : PresenceAgrees c fileHash := by
  have hmissing : ∀ files, fileHash ∈ files →
      (fileHash ∉ c.missingFiles files ↔ c.listChunks fileHash ≠ []) := by
    intro files hfile
    rw [mem_missingFiles, ← isFileComplete_iff h]
    simp [hfile]
  refine ⟨isFileComplete_iff h, hmissing, fun draft hproject hnamed => ?_⟩
  rw [refusedFor_iff hproject]
  exact hmissing _ (mem_distinctHashes.mpr hnamed)

/-- **In every catalog that requests make of an empty one, a file with a chunk has each of its chunks once,
over recorded blocks that compose it; what is staged is part of a file; and all tests for a file agree.** -/
theorem reachable_content_sound (requests : List Request) :
    ContentSound (Catalog.empty.after requests) ∧
      ∀ fileHash, PresenceAgrees (Catalog.empty.after requests) fileHash :=
  ⟨contentSound_after requests, presenceAgrees (contentSound_after requests)⟩

end Depot.Catalog
