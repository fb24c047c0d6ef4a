import Depot.Proofs.Catalog.PrivateStaging

/-!
# Registering a chunk again

A chunk that was registered can be registered again at any time. It is then staged at its position as before, or
confirmed by the rows of its file, and nothing but the time of the position changes (`registerChunk_again`).
-/

namespace Depot.Catalog

open Content Time

variable {c : Catalog} {uploader : String} {k : Chunk}

/-- A chunk with another time. -/
def Chunk.at (k : Chunk) (now : DateTime) : Chunk := { k with createdAt := now }

/-- A staged row, with the time of a chunk that its uploader has registered at its position. -/
def Chunk.retimed (uploader : String) (k : Chunk) (u f : String) (row : Chunk) : Chunk :=
  if u = uploader ∧ f = k.fileHash ∧ row.index = k.index then row.at k.createdAt else row

/-- Nothing has changed but the time of one staged position. -/
structure Retimed (c : Catalog) (uploader : String) (k : Chunk) (next : Catalog) : Prop where
  frame : next = { c with staged := next.staged }
  staged : ∀ u f, next.stagedFor u f = (c.stagedFor u f).map (k.retimed uploader u f)

theorem map_retimed_of_ne {u f : String} (hne : ¬(u = uploader ∧ f = k.fileHash)) (rows : List Chunk) :
    rows.map (k.retimed uploader u f) = rows := by
  refine (List.map_congr_left fun row _ => ?_).trans (List.map_id rows)
  exact if_neg fun h => hne ⟨h.1, h.2.1⟩

theorem retimed_unstage (hnone : c.stagedFor uploader k.fileHash = []) :
    Retimed c uploader k (c.unstage uploader k.fileHash) where
  frame := rfl
  staged u f := by
    by_cases hown : u = uploader ∧ f = k.fileHash
    · obtain ⟨rfl, rfl⟩ := hown
      rw [stagedFor_unstage_self, hnone, List.map_nil]
    · rw [stagedFor_unstage_of_ne hown, map_retimed_of_ne hown]

/-! ### Files in the catalog -/

theorem FileSound.getElem?_index {fileHash : String} {n : Nat} (h : FileSound c fileHash n) {row : Chunk}
    (hrow : row ∈ c.listChunks fileHash) :
    0 ≤ row.index ∧ (c.listChunks fileHash)[row.index.toNat]? = some row := by
  obtain ⟨i, hi, rfl⟩ := List.getElem_of_mem hrow
  have hindex := index_getElem h.indexes hi
  refine ⟨by omega, ?_⟩
  rw [hindex, Int.toNat_natCast]
  exact List.getElem?_eq_getElem hi

theorem registerChunk_confirmed (h : ContentSound c) (hfile : c.listChunks k.fileHash ≠ [])
    (hmatches : Matches (c.listChunks k.fileHash) k) (hnone : c.stagedFor uploader k.fileHash = []) :
    (c.registerChunk uploader k).1 = .ok .alreadyExists ∧ Retimed c uploader k (c.registerChunk uploader k).2 := by
  rw [(answered_registerChunk h hfile uploader).same hmatches]
  exact ⟨rfl, retimed_unstage hnone⟩

theorem matches_withFile (h : ContentSound (c.withFile uploader k)) (can : c.Stageable k)
    (whole : ((c.stagedWith uploader k).length : Int) = k.count) :
    Matches ((c.withFile uploader k).listChunks k.fileHash) k := by
  have hlist := listChunks_withFile uploader can.uncatalogued
  have hmem : k ∈ (c.withFile uploader k).listChunks k.fileHash := by
    rw [hlist, mem_stagedWith]
    exact .inl rfl
  obtain ⟨n, hn⟩ := h.files k.fileHash (List.ne_nil_of_mem hmem)
  obtain ⟨hnonneg, hat⟩ := hn.getElem?_index hmem
  exact ⟨by rw [hlist, whole], hnonneg, by rw [hat]; rfl⟩

/-! ### Staged positions -/

theorem StagedTogether.ascending (h : StagedTogether c uploader k) :
    (c.stagedWith uploader k).Pairwise fun a b => a.index < b.index := by
  have hsorted : (c.stagedWith uploader k).Pairwise fun a b => byIndex a b = true := pairwise_stagedFor _ _ _
  refine (hsorted.and (List.pairwise_map.mp h.distinct)).imp fun {a b} hab => ?_
  have hle : a.index ≤ b.index := by simpa [byIndex] using hab.1
  have hne := hab.2
  omega

theorem stagedWith_stage (h : ContentSound c) (hstaged : ContentSound (c.stage uploader k)) (can : c.Stageable k)
    (now : DateTime) :
    (c.stage uploader k).stagedWith uploader (k.at now) =
      (c.stagedWith uploader k).map ((k.at now).retimed uploader uploader k.fileHash) := by
  have hall := stagedTogether uploader h can
  have hagain : StagedTogether (c.stage uploader k) uploader (k.at now) :=
    stagedTogether uploader hstaged ⟨can.inside, can.uncatalogued, can.recorded⟩
  have hindex (row : Chunk) : ((k.at now).retimed uploader uploader k.fileHash row).index = row.index := by
    unfold Chunk.retimed
    split <;> rfl
  refine eq_of_ascending_by Chunk.index hagain.ascending (List.pairwise_map.mpr ?_) fun row => ?_
  · simpa only [hindex] using hall.ascending
  -- The one row at the position of the chunk is the chunk, and all others are kept.
  have hmem : k ∈ c.stagedWith uploader k := mem_stagedWith.mpr (.inl rfl)
  have hself : (k.at now).retimed uploader uploader k.fileHash k = k.at now := if_pos ⟨rfl, rfl, rfl⟩
  have hother {other : Chunk} (hne : other.index ≠ k.index) :
      (k.at now).retimed uploader uploader k.fileHash other = other := if_neg fun heq => hne heq.2.2
  rw [mem_stagedWith, List.mem_map]
  constructor
  · rintro (rfl | ⟨hrow, _, hne⟩)
    · exact ⟨k, hmem, hself⟩
    · exact ⟨row, hrow, hother hne⟩
  · rintro ⟨old, hold, rfl⟩
    by_cases hsame : old.index = k.index
    · rw [List.inj_on_of_nodup_map hall.distinct hold hmem hsame, hself]
      exact .inl rfl
    · rw [hother hsame]
      exact .inr ⟨hold, hall.counts old hold, hsame⟩

theorem registerChunk_staged_again (h : ContentSound c) (can : c.Stageable k)
    (partly : ((c.stagedWith uploader k).length : Int) ≠ k.count) (now : DateTime) :
    ((c.stage uploader k).registerChunk uploader (k.at now)).1 = .ok .inserted ∧
      Retimed (c.stage uploader k) uploader (k.at now) ((c.stage uploader k).registerChunk uploader (k.at now)).2 := by
  have hstaged : ContentSound (c.stage uploader k) := contentSound_step (.staged can partly) h
  have hrows := stagedWith_stage h hstaged can now
  have hinside := can.inside
  have hregistered := registered (c.stage uploader k) uploader (k.at now)
  generalize (c.stage uploader k).registerChunk uploader (k.at now) = result at hregistered
  cases hregistered with
  | staged _ _ =>
    refine ⟨rfl, rfl, fun u f => ?_⟩
    by_cases hown : u = uploader ∧ f = k.fileHash
    · obtain ⟨rfl, rfl⟩ := hown
      exact hrows
    · exact (stagedFor_stage_of_ne (k := k.at now) hown).trans (map_retimed_of_ne (k := k.at now) hown _).symm
  | outside position => exact absurd position (by simp only [Chunk.at]; omega)
  | mismatch catalogued _ => cases can.uncatalogued.symm.trans catalogued
  | confirmed catalogued _ => cases can.uncatalogued.symm.trans catalogued
  | unrecorded _ absent => cases absent ▸ can.recorded
  | promoted _ whole _ => exact absurd (by rwa [hrows, List.length_map] at whole) partly
  | dropped _ whole _ => exact absurd (by rwa [hrows, List.length_map] at whole) partly

/-- **A chunk that was registered can be registered again at any time, whatever came of the first time: a staged
position, a file in the catalog, or nothing because the file was there. Nothing but the time of the position
changes.** -/
theorem registerChunk_again (h : ContentSound c) {reply : InsertOutcome}
    (hok : (c.registerChunk uploader k).1 = .ok reply) (now : DateTime) :
    let d := (c.registerChunk uploader k).2
    (∃ again, (d.registerChunk uploader (k.at now)).1 = .ok again) ∧
      Retimed d uploader (k.at now) (d.registerChunk uploader (k.at now)).2 := by
  intro d
  have hd : ContentSound d := contentSound_step (registerChunk_step c uploader k) h
  have hregistered := registered c uploader k
  have hresult : c.registerChunk uploader k = (.ok reply, d) := Prod.ext hok rfl
  generalize d = d at hd hresult
  rw [hresult] at hregistered
  cases hregistered with
  | staged can partly =>
    obtain ⟨hreply, hretimed⟩ := registerChunk_staged_again h can partly now
    exact ⟨⟨_, hreply⟩, hretimed⟩
  | promoted can whole composes =>
    have hmatches := matches_withFile hd can whole
    have hfile : (c.withFile uploader k).listChunks k.fileHash ≠ [] := by
      rw [listChunks_withFile uploader can.uncatalogued]
      exact List.ne_nil_of_mem (mem_stagedWith.mpr (.inl rfl))
    obtain ⟨hreply, hretimed⟩ := registerChunk_confirmed (k := k.at now) hd hfile hmatches
      (stagedFor_unstage_self c uploader k.fileHash)
    exact ⟨⟨_, hreply⟩, hretimed⟩
  | confirmed catalogued same =>
    have hfile : c.listChunks k.fileHash ≠ [] := by
      rw [catalogued]
      exact List.cons_ne_nil _ _
    have hmatches : Matches (c.listChunks k.fileHash) k := by
      by_contra hno
      obtain ⟨detail, hrefused⟩ := (answered_registerChunk h hfile uploader).other hno
      cases hok.symm.trans (congrArg Prod.fst hrefused)
    obtain ⟨hreply, hretimed⟩ := registerChunk_confirmed (k := k.at now) hd hfile hmatches
      (stagedFor_unstage_self c uploader k.fileHash)
    exact ⟨⟨_, hreply⟩, hretimed⟩

end Depot.Catalog
