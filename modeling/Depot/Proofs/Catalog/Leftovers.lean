import Depot.Proofs.Catalog.PrivateStaging
import Depot.Proofs.Content.Spelling

/-!
# What stays staged of a file in the catalog

One registration brings a file into the catalog, and drops what its uploader has staged for it. What others have staged
for the file stays.

- `Entry`: a registration with which a file enters the catalog. A file that is there has got there by one
  (`exists_entry`).
- `stagedFor_after_catalogued`: once the file is there nothing is staged for it, and what an uploader has staged is
  dropped with the uploader's next registration that is accepted.
- `deleteBlock_of_staged`: until then the blocks of these rows cannot be removed.
-/

namespace Depot.Catalog

open Content Time

variable {c : Catalog} {uploader fileHash : String} {k : Chunk}

/-! ### How a file enters the catalog -/

/-- The registration of a chunk with which a file enters the catalog. -/
structure Entry (c : Catalog) (fileHash uploader : String) (k : Chunk) : Prop where
  own : k.fileHash = fileHash
  absent : c.listChunks fileHash = []
  there : (c.registerChunk uploader k).2.listChunks fileHash ≠ []

theorem chunks_answer {r : Request} (h : ∀ u k, r ≠ .registerChunk u k) : (c.answer r).2.chunks = c.chunks := by
  have hframe := framed c r
  generalize (c.answer r).2 = next at hframe
  cases hframe with
  | @registered u k _ _ => exact absurd rfl (h u k)
  | _ => rfl

theorem entry_of_answer {r : Request} (habsent : c.listChunks fileHash = [])
    (hthere : (c.answer r).2.listChunks fileHash ≠ []) :
    ∃ uploader k, r = .registerChunk uploader k ∧ Entry c fileHash uploader k := by
  by_cases hregister : ∃ u k, r = .registerChunk u k
  · obtain ⟨u, k, rfl⟩ := hregister
    refine ⟨u, k, rfl, ?_, habsent, hthere⟩
    by_contra hne
    refine hthere (Eq.trans ?_ habsent)
    have hsame : SameFile u fileHash c (c.registerChunk u k).2 := sameFile_registerChunk_of_ne hne
    exact hsame.listChunks_eq
  · refine absurd (Eq.trans ?_ habsent) hthere
    rw [listChunks, chunks_answer fun u k hr => hregister ⟨u, k, hr⟩, listChunks]

theorem exists_entry (requests : List Request) (habsent : c.listChunks fileHash = [])
    (hthere : (c.after requests).listChunks fileHash ≠ []) :
    ∃ before uploader k rest, requests = before ++ .registerChunk uploader k :: rest ∧
      Entry (c.after before) fileHash uploader k := by
  induction requests generalizing c with
  | nil => exact absurd habsent hthere
  | cons r rest ih =>
    by_cases hnow : (c.answer r).2.listChunks fileHash = []
    · obtain ⟨before, u, k, later, hsplit, hentry⟩ := ih hnow hthere
      exact ⟨r :: before, u, k, later, congrArg (r :: ·) hsplit, hentry⟩
    · obtain ⟨u, k, rfl, hentry⟩ := entry_of_answer habsent hnow
      exact ⟨[], u, k, rest, rfl, hentry⟩

theorem Entry.stagedFor_eq (h : Entry c fileHash uploader k) (u : String) :
    (c.registerChunk uploader k).2.stagedFor u fileHash = if u = uploader then [] else c.stagedFor u fileHash := by
  obtain ⟨rfl, habsent, hthere⟩ := h
  split
  · rename_i heq
    subst heq
    have hregistered := registered c u k
    generalize c.registerChunk u k = result at hregistered hthere
    cases hregistered with
    | promoted _ _ _ => exact stagedFor_unstage_self c u k.fileHash
    | mismatch catalogued _ => cases habsent.symm.trans catalogued
    | confirmed catalogued _ => cases habsent.symm.trans catalogued
    | _ => exact absurd habsent hthere
  · exact stagedFor_registerChunk_of_ne ‹_›

/-! ### Afterwards -/

/-- A registration of a file by an uploader is accepted in the course of some requests. -/
def Accepted (c : Catalog) (uploader fileHash : String) (requests : List Request) : Prop :=
  ∃ outcome, .ok outcome ∈ c.ownReplies uploader fileHash requests

theorem accepted_cons_iff {r : Request} {rest : List Request} :
    c.Accepted uploader fileHash (r :: rest) ↔
      (∃ outcome, r.ownReply? c uploader fileHash = some (.ok outcome)) ∨
        (c.answer r).2.Accepted uploader fileHash rest := by
  simp only [Accepted, ownReplies, List.mem_append, Option.mem_toList, exists_or]

/-- Once a file is in the catalog, a registration of it is accepted and drops what its uploader has staged, or leaves
everything as it is. -/
theorem accepted_or_left (h : ContentSound c) (hfile : c.listChunks fileHash ≠ []) (uploader : String) (r : Request) :
    ((∃ outcome, r.ownReply? c uploader fileHash = some (.ok outcome)) ∧
        (c.answer r).2.stagedFor uploader fileHash = []) ∨
      ((¬∃ outcome, r.ownReply? c uploader fileHash = some (.ok outcome)) ∧
        (c.answer r).2.stagedFor uploader fileHash = c.stagedFor uploader fileHash) := by
  obtain ⟨hcall, hreply⟩ | ⟨k, rfl, rfl⟩ := r.ownCall?_cases c uploader fileHash
  · right
    rw [hreply]
    exact ⟨by simp, stagedFor_answer_of_ownCall? hcall⟩
  · have hanswered := answered_registerChunk h hfile uploader
    have hreply : Request.ownReply? c uploader k.fileHash (.registerChunk uploader k) =
        some (c.registerChunk uploader k).1 := if_pos ⟨rfl, rfl⟩
    rw [hreply, answer]
    by_cases hmatches : Matches (c.listChunks k.fileHash) k
    · rw [hanswered.same hmatches]
      exact .inl ⟨⟨_, rfl⟩, stagedFor_unstage_self c uploader k.fileHash⟩
    · obtain ⟨detail, hrefused⟩ := hanswered.other hmatches
      rw [hrefused]
      exact .inr ⟨by simp, rfl⟩

/-- **Once a file is in the catalog, what an uploader has staged for it stays until a registration of the file by the
uploader is accepted, and then nothing is.** -/
theorem stagedFor_after_catalogued (h : ContentSound c) (hfile : c.listChunks fileHash ≠ []) (uploader : String)
    (requests : List Request) :
    (c.Accepted uploader fileHash requests ∧ (c.after requests).stagedFor uploader fileHash = []) ∨
      (¬c.Accepted uploader fileHash requests ∧
        (c.after requests).stagedFor uploader fileHash = c.stagedFor uploader fileHash) := by
  induction requests generalizing c with
  | nil => exact .inr ⟨by simp [Accepted, ownReplies], rfl⟩
  | cons r rest ih =>
    have hnext : ContentSound (c.answer r).2 := contentSound_step (answer_step c r) h
    have hstays : (c.answer r).2.listChunks fileHash ≠ [] := by
      rwa [listChunks_step (answer_step c r) hfile]
    rw [accepted_cons_iff, after_cons]
    obtain ⟨hlater, hnone⟩ | ⟨hnever, hrest⟩ := ih hnext hstays
    · exact .inl ⟨.inr hlater, hnone⟩
    · rw [hrest]
      obtain ⟨hnow, hnone⟩ | ⟨hrefused, hleft⟩ := accepted_or_left h hfile uploader r
      · exact .inl ⟨.inl hnow, hnone⟩
      · exact .inr ⟨not_or.mpr ⟨hrefused, hnever⟩, hleft⟩

theorem deleteBlock_of_staged (h : ContentSound c) (hk : k ∈ c.stagedFor uploader fileHash) :
    ∃ e, c.answer (.deleteBlock k.blockHash) = (.error e, c) := by
  have hstaged := (mem_stagedFor.mp hk).1
  obtain ⟨row, hrow⟩ := Option.isSome_iff_exists.mp (h.recorded (.inr ⟨uploader, hstaged⟩))
  have hreferenced : c.isReferenced k.blockHash = true := by
    rw [isReferenced, Bool.or_eq_true, List.any_eq_true, List.any_eq_true]
    exact .inr ⟨_, hstaged, beq_self_eq_true _⟩
  simp only [answer, deleteBlock, hrow, hreferenced, if_true, commitOr]
  exact ⟨_, rfl⟩

theorem countStaged_eq_length (c : Catalog) (uploader fileHash : String) :
    c.countStaged uploader fileHash = (c.stagedFor uploader fileHash).length := by
  simp [countStaged, stagedFor]

/-- **What stays staged of a file in the catalog.** One registration has brought the file in. Its uploader has nothing
staged for the file, and neither has an uploader with a registration of the file that was accepted since. Anyone else
still has staged what was staged when the file came in, and the blocks of these rows cannot be removed. -/
theorem reachable_leftovers (requests : List Request) (fileHash : String)
    (hfile : (Catalog.empty.after requests).isFileComplete fileHash) :
    let c := Catalog.empty.after requests
    ∃ before promoter k rest, requests = before ++ .registerChunk promoter k :: rest ∧ k.fileHash = fileHash ∧
      let d := Catalog.empty.after before
      let e := (d.answer (.registerChunk promoter k)).2
      (¬d.isFileComplete fileHash ∧ e.isFileComplete fileHash) ∧
      (∀ u, u = promoter ∨ e.Accepted u fileHash rest → c.countStaged u fileHash = 0) ∧
      (∀ u, ¬(u = promoter ∨ e.Accepted u fileHash rest) →
        c.stagedFor u fileHash = d.stagedFor u fileHash ∧ c.countStaged u fileHash = d.countStaged u fileHash) ∧
      ∀ u, ∀ s ∈ c.stagedFor u fileHash, ∃ error, c.answer (.deleteBlock s.blockHash) = (.error error, c) := by
  intro c
  have h : ContentSound c := contentSound_after requests
  have habsent : Catalog.empty.listChunks fileHash = [] := by simp [Catalog.empty, listChunks]
  obtain ⟨before, promoter, k, rest, rfl, hentry⟩ :=
    exists_entry requests habsent ((isFileComplete_iff h).mp hfile)
  refine ⟨before, promoter, k, rest, rfl, hentry.own, ?_⟩
  intro d e
  have hd : ContentSound d := contentSound_after before
  have he : ContentSound e := contentSound_step (answer_step d _) hd
  have hc : c = e.after rest := after_append _ _ _
  have hentered (u : String) : e.stagedFor u fileHash = if u = promoter then [] else d.stagedFor u fileHash :=
    hentry.stagedFor_eq u
  have hrest (u : String) := stagedFor_after_catalogued he hentry.there u rest
  refine ⟨⟨fun hcomplete => (isFileComplete_iff hd).mp hcomplete hentry.absent,
    (isFileComplete_iff he).mpr hentry.there⟩, fun u hsettled => ?_, fun u hleft => ?_,
    fun u s hs => deleteBlock_of_staged h hs⟩
  · rw [countStaged_eq_length, List.length_eq_zero_iff, hc]
    obtain ⟨_, hnone⟩ | ⟨hnever, hstill⟩ := hrest u
    · exact hnone
    · rw [hstill, hentered u, if_pos (hsettled.resolve_right hnever)]
  · obtain ⟨hother, hnever⟩ := not_or.mp hleft
    obtain ⟨haccepted, _⟩ | ⟨_, hstill⟩ := hrest u
    · exact absurd haccepted hnever
    · have hsame : c.stagedFor u fileHash = d.stagedFor u fileHash := by rw [hc, hstill, hentered u, if_neg hother]
      exact ⟨hsame, by rw [countStaged_eq_length, countStaged_eq_length, hsame]⟩

/-! ### A user who is overtaken -/

theorem registerChunk_last (can : c.Stageable k) (whole : ((c.stagedWith uploader k).length : Int) = k.count)
    (composes : blocksCompose k.fileHash ((c.stagedWith uploader k).map Chunk.blockHash)) :
    c.registerChunk uploader k = (.ok .inserted, c.withFile uploader k) := by
  have hinside := can.inside
  have h := registered c uploader k
  generalize c.registerChunk uploader k = result at h
  cases h with
  | promoted _ _ _ => rfl
  | outside position => omega
  | mismatch catalogued _ => cases can.uncatalogued.symm.trans catalogued
  | confirmed catalogued _ => cases can.uncatalogued.symm.trans catalogued
  | unrecorded _ absent => cases absent ▸ can.recorded
  | staged _ partly => exact absurd whole partly
  | dropped _ _ differs => cases differs.symm.trans composes

theorem stagedWith_of_nil (h : c.stagedFor uploader k.fileHash = []) : c.stagedWith uploader k = [k] := by
  have hperm := stagedWith_perm c uploader k
  rw [h] at hperm
  exact List.perm_singleton.mp hperm

/-- The chunk at a position of a file that is one block twice. -/
def twinChunk (block : BlockHash) (index : Int) : Chunk :=
  ⟨(FileHash.ofBlocks [block, block]).hex, index, block.hex, 0, 2, .epoch⟩

/-- Ann registers the first chunk of the file, and then Bob registers both. -/
def overtaking (block : BlockHash) : List Request :=
  [.putBlock ⟨block.hex, block.objectKey, 0, .epoch⟩, .registerChunk "ann" (twinChunk block 0),
    .registerChunk "bob" (twinChunk block 0), .registerChunk "bob" (twinChunk block 1)]

theorem overtaken (block : BlockHash) :
    let c := Catalog.empty.after (overtaking block)
    c.isFileComplete (twinChunk block 0).fileHash ∧
      c.stagedFor "ann" (twinChunk block 0).fileHash = [twinChunk block 0] := by
  intro c
  let recorded : Catalog := { Catalog.empty with blocks := [⟨block.hex, block.objectKey, 0, .epoch⟩] }
  let begun := recorded.stage "ann" (twinChunk block 0)
  let both := begun.stage "bob" (twinChunk block 0)
  have hinside : (0 : Int) ≤ 0 ∧ (0 : Int) < 2 := by decide
  have hseveral : (1 : Int) < 2 := by decide
  have hblock : (recorded.block? block.hex).isSome := by simp [recorded, block?]
  have hfile : recorded.listChunks (twinChunk block 0).fileHash = [] := by simp [recorded, listChunks, Catalog.empty]
  have hnone (u : String) : recorded.stagedFor u (twinChunk block 0).fileHash = [] := by
    simp [recorded, stagedFor, Catalog.empty]
  have hann : recorded.registerChunk "ann" (twinChunk block 0) = (.ok .inserted, begun) :=
    registerChunk_first hinside hseveral hfile hblock (hnone "ann")
  have hbobNone : begun.stagedFor "bob" (twinChunk block 0).fileHash = [] :=
    (stagedFor_stage_of_ne fun h => absurd h.1 (by decide)).trans (hnone "bob")
  have hbob : begun.registerChunk "bob" (twinChunk block 0) = (.ok .inserted, both) :=
    registerChunk_first hinside hseveral hfile hblock hbobNone
  have hrows : (both.stagedWith "bob" (twinChunk block 1)).Perm [twinChunk block 1, twinChunk block 0] := by
    have hfirst : both.stagedFor "bob" (twinChunk block 1).fileHash = [twinChunk block 0] :=
      stagedWith_of_nil hbobNone
    have hperm := stagedWith_perm both "bob" (twinChunk block 1)
    rwa [hfirst] at hperm
  have hhashes : (both.stagedWith "bob" (twinChunk block 1)).map Chunk.blockHash = [block, block].map BlockHash.hex :=
    (List.perm_replicate (n := 2) (a := block.hex)).mp (hrows.map Chunk.blockHash)
  have hlast : both.registerChunk "bob" (twinChunk block 1) =
      (.ok .inserted, both.withFile "bob" (twinChunk block 1)) := by
    have hlastInside : (0 : Int) ≤ 1 ∧ (1 : Int) < 2 := by decide
    have hcan : both.Stageable (twinChunk block 1) := ⟨hlastInside, hfile, hblock⟩
    refine registerChunk_last hcan (by rw [hrows.length_eq]; rfl) ?_
    rw [hhashes, twinChunk, blocksCompose_hex]
    exact beq_self_eq_true _
  have hafter : c = both.withFile "bob" (twinChunk block 1) := by
    have hput : (Catalog.empty.answer (.putBlock ⟨block.hex, block.objectKey, 0, .epoch⟩)).2 = recorded := rfl
    simp only [c, overtaking, after_cons, after_nil, hput]
    simp only [answer, hann, hbob, hlast]
  refine ⟨(isFileComplete_iff (contentSound_after _)).mpr ?_, ?_⟩
  · have hlist : c.listChunks (twinChunk block 1).fileHash = both.stagedWith "bob" (twinChunk block 1) :=
      hafter ▸ listChunks_withFile "bob" (show both.listChunks (twinChunk block 1).fileHash = [] from hfile)
    exact hlist ▸ List.ne_nil_of_mem (hrows.mem_iff.mpr List.mem_cons_self)
  · have hother : c.stagedFor "ann" (twinChunk block 0).fileHash =
        both.stagedFor "ann" (twinChunk block 0).fileHash := by
      rw [hafter]
      exact stagedFor_unstage_of_ne fun h => absurd h.1 (by decide)
    rw [hother, stagedFor_stage_of_ne fun h => absurd h.1 (by decide)]
    exact stagedWith_of_nil (hnone "ann")

/-- The file is there, and of Ann is staged what was when Bob's last chunk came. -/
theorem reachable_leftovers_overtaken :
    let block : BlockHash := .compute []
    let c := Catalog.empty.after (overtaking block)
    let file := (twinChunk block 0).fileHash
    c.isFileComplete file ∧ ∃ before promoter k rest,
      overtaking block = before ++ .registerChunk promoter k :: rest ∧
      (Catalog.empty.after before).stagedFor "ann" file = [twinChunk block 0] := by
  intro block c file
  obtain ⟨hfile, hann⟩ := overtaken block
  obtain ⟨before, promoter, k, rest, hsplit, _, _, hsettled, hleft, _⟩ :=
    reachable_leftovers (overtaking block) file hfile
  refine ⟨hfile, before, promoter, k, rest, hsplit, ?_⟩
  let entered := ((Catalog.empty.after before).answer (.registerChunk promoter k)).2
  by_cases h : "ann" = promoter ∨ entered.Accepted "ann" file rest
  · have hcount := hsettled "ann" h
    rw [countStaged_eq_length, hann] at hcount
    cases hcount
  · exact (hleft "ann" h).1.symm.trans hann

/-- One chunk stays staged of a file that is in the catalog. -/
theorem exists_leftover :
    let c := Catalog.empty.after (overtaking (.compute []))
    let file := (twinChunk (.compute []) 0).fileHash
    c.isFileComplete file ∧ c.countStaged "ann" file = 1 := by
  intro c file
  obtain ⟨hfile, hann⟩ := overtaken (.compute [])
  exact ⟨hfile, by rw [countStaged_eq_length, hann]; rfl⟩

end Depot.Catalog
