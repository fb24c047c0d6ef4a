import Depot.Proofs.Catalog.Quiet
import Depot.Proofs.Catalog.Registration

/-!
# Staging as its uploader sees it

- `Places`, `OwnCall.effect`: what an uploader has set of a file, and what a registration comes to by that alone.
- As long as the file is not in the catalog, what is staged and what is answered follow an uploader's own
  registrations (`ownCalls`), whatever others do in between: `comesTo_registerChunk` is one call, `follows_run` a run.
- The rows of a file that is in the catalog answer every registration for it (`answered_registerChunk`).
-/

namespace Depot.Catalog

open Content

variable {c : Catalog} {uploader fileHash : String} {k : Chunk} {n : Nat} {rows : List Chunk}

/-! ### What an uploader has set -/

/-- What an uploader has set of a file: a chunk at some of its positions. -/
abbrev Places := Int → Option Chunk

namespace Places

def empty : Places := fun _ => none

/-- A chunk is set at its position, and positions that belong to another number of chunks are dropped. -/
def put (p : Places) (k : Chunk) : Places := fun i =>
  if i = k.index then some k else (p i).filter fun j => j.count == k.count

/-- What is set at the positions below a number, in their order. -/
def inOrder (p : Places) (count : Int) : List Chunk := (List.range count.toNat).filterMap fun (i : Nat) => p i

end Places

/-- A registration, and whether its block is recorded when it is made. -/
structure OwnCall where
  chunk : Chunk
  recorded : Bool

/-- What a registration comes to: its answer, what its uploader has set then, and what enters the catalog. -/
structure Effect where
  reply : Except StoreError InsertOutcome
  places : Places
  entering : List Chunk

/-- What a registration comes to for an uploader who has set some positions. -/
def OwnCall.effect (call : OwnCall) (p : Places) : Effect :=
  let k := call.chunk
  if k.index < 0 ∨ k.count ≤ k.index then
    ⟨.error (.constraint s!"chunk index {k.index} outside 0..{k.count} for file {k.fileHash}"), p, []⟩
  else if call.recorded = false then
    ⟨.error (.constraint s!"block {k.blockHash}: {Violation.foreignKey.message}"), p, []⟩
  else
    let set := (p.put k).inOrder k.count
    if (set.length : Int) < k.count then ⟨.ok .inserted, p.put k, []⟩
    else if blocksCompose k.fileHash (set.map Chunk.blockHash) then ⟨.ok .inserted, .empty, set⟩
    else ⟨.error (.constraint s!"blocks uploaded for file {k.fileHash} do not compose its hash"), .empty, []⟩

/-- What is set after registrations. -/
def Places.after (p : Places) (calls : List OwnCall) : Places := calls.foldl (fun p call => (call.effect p).places) p

/-- The answers to registrations. -/
def Places.replies (p : Places) : List OwnCall → List (Except StoreError InsertOutcome)
  | [] => []
  | call :: rest => (call.effect p).reply :: replies (call.effect p).places rest

/-- Rows are what is set, each row once. -/
structure Places.Lists (p : Places) (rows : List Chunk) : Prop where
  mem : ∀ i k, p i = some k ↔ k ∈ rows ∧ k.index = i
  nodup : rows.Nodup

variable {p : Places}

theorem Places.lists_empty : Places.empty.Lists [] := ⟨by simp [Places.empty], List.nodup_nil⟩

theorem Places.Lists.index_inj (hp : p.Lists rows) {a b : Chunk} (ha : a ∈ rows) (hb : b ∈ rows)
    (hindex : a.index = b.index) : a = b := by
  have hplace := (hp.mem b.index a).mpr ⟨ha, hindex⟩
  rw [(hp.mem b.index b).mpr ⟨hb, rfl⟩] at hplace
  exact (Option.some.inj hplace).symm

theorem Places.Lists.inOrder_eq (hp : p.Lists rows) (hsorted : rows.Pairwise fun a b => byIndex a b = true)
    {count : Int} (hinside : ∀ k ∈ rows, 0 ≤ k.index ∧ k.index < count.toNat) : p.inOrder count = rows := by
  have hascending : rows.Pairwise fun a b => a.index < b.index := by
    refine (hsorted.and hp.nodup).imp_of_mem fun {a b} ha hb hab => ?_
    have hne : a.index ≠ b.index := fun heq => hab.2 (hp.index_inj ha hb heq)
    have hle : a.index ≤ b.index := by simpa [byIndex] using hab.1
    omega
  have hlisted : (p.inOrder count).Pairwise fun a b => a.index < b.index := by
    refine List.pairwise_filterMap.mpr (List.pairwise_lt_range.imp fun {i j} hlt a ha b hb => ?_)
    have hi := ((hp.mem _ _).mp ha).2
    have hj := ((hp.mem _ _).mp hb).2
    omega
  have hmem : ∀ k, k ∈ p.inOrder count ↔ k ∈ rows := by
    intro k
    simp only [Places.inOrder, List.mem_filterMap, List.mem_range]
    constructor
    · rintro ⟨i, _, hi⟩
      exact ((hp.mem _ _).mp hi).1
    · intro hk
      have := hinside k hk
      exact ⟨k.index.toNat, by omega, (hp.mem _ _).mpr ⟨hk, by omega⟩⟩
  exact eq_of_ascending_by Chunk.index hlisted hascending hmem

/-! ### One registration -/

theorem Places.Lists.put (hp : p.Lists (c.stagedFor uploader k.fileHash))
    (hdistinct : ((c.stagedWith uploader k).map Chunk.index).Nodup) : (p.put k).Lists (c.stagedWith uploader k) where
  mem i j := by
    have hold := hp.mem i j
    unfold Places.put
    rw [mem_stagedWith]
    by_cases hi : i = k.index
    · simp only [if_pos hi, Option.some.injEq]
      grind
    · simp only [if_neg hi, Option.filter_eq_some_iff, beq_iff_eq, hold]
      grind
  nodup := hdistinct.of_map

theorem Places.Lists.put_of_stageable (h : ContentSound c) (can : c.Stageable k)
    (hp : p.Lists (c.stagedFor uploader k.fileHash)) :
    (p.put k).Lists (c.stagedWith uploader k) ∧ (p.put k).inOrder k.count = c.stagedWith uploader k := by
  have hall := stagedTogether uploader h can
  have hput := hp.put hall.distinct
  exact ⟨hput, hput.inOrder_eq (pairwise_stagedFor _ _ _) hall.inside⟩

theorem Places.lists_unstage (c : Catalog) (uploader fileHash : String) :
    Places.empty.Lists ((c.unstage uploader fileHash).stagedFor uploader fileHash) := by
  rw [stagedFor_unstage_self]
  exact Places.lists_empty

/-- A registration has an effect. -/
structure ComesTo (c : Catalog) (uploader : String) (k : Chunk) (e : Effect)
    (result : Except StoreError InsertOutcome × Catalog) : Prop where
  reply : result.1 = e.reply
  staged : e.places.Lists (result.2.stagedFor uploader k.fileHash)
  chunks : result.2.chunks = c.chunks ++ e.entering
  rows : result.2.listChunks k.fileHash = e.entering
  /-- A chunk that has no place in its file or no block changes nothing. -/
  refused : (k.index < 0 ∨ k.count ≤ k.index ∨ c.block? k.blockHash = none) → result.2 = c

/-- **A registration of a file that is not in the catalog comes to what its uploader has set makes of it.** -/
theorem comesTo_registerChunk (h : ContentSound c) (hfile : c.listChunks k.fileHash = [])
    (hp : p.Lists (c.stagedFor uploader k.fileHash)) :
    ComesTo c uploader k (OwnCall.effect ⟨k, (c.block? k.blockHash).isSome⟩ p) (c.registerChunk uploader k) := by
  unfold registerChunk OwnCall.effect
  by_cases houtside : k.index < 0 ∨ k.count ≤ k.index
  · simp only [if_pos houtside]
    exact ⟨rfl, hp, (List.append_nil _).symm, hfile, fun _ => rfl⟩
  simp only [if_neg houtside, hfile]
  cases hblock : c.block? k.blockHash with
  | none => exact ⟨rfl, hp, (List.append_nil _).symm, hfile, fun _ => rfl⟩
  | some block =>
    have can : c.Stageable k := ⟨by omega, hfile, by simp [hblock]⟩
    have hall := stagedTogether uploader h can
    have hmost := length_le_of_indexes hall.inside hall.distinct
    obtain ⟨hput, hrows⟩ := hp.put_of_stageable h can
    have hrefused : ¬(k.index < 0 ∨ k.count ≤ k.index ∨ c.block? k.blockHash = none) := by
      simp only [hblock, reduceCtorEq, or_false]
      exact houtside
    have hstaged : (c.stage uploader k).stagedFor uploader k.fileHash = c.stagedWith uploader k := rfl
    simp only [hrows, Option.isSome_some, Option.isNone_some, Bool.true_eq_false, Bool.false_eq_true, if_false, promote,
      hstaged, unstage_stage]
    by_cases hpartly : ((c.stagedWith uploader k).length : Int) < k.count
    · have hnot : ((c.stagedWith uploader k).length : Int) ≠ k.count := by omega
      simp only [if_pos hpartly, if_pos hnot]
      exact ⟨rfl, hput, (List.append_nil _).symm, hfile, fun hno => absurd hno hrefused⟩
    · have hwhole : ¬((c.stagedWith uploader k).length : Int) ≠ k.count := by omega
      have hgone := Places.lists_unstage c uploader k.fileHash
      simp only [if_neg hpartly, if_neg hwhole]
      by_cases hcomposes : blocksCompose k.fileHash ((c.stagedWith uploader k).map Chunk.blockHash)
      · simp only [if_pos hcomposes]
        exact ⟨rfl, hgone, rfl, listChunks_withFile uploader hfile, fun hno => absurd hno hrefused⟩
      · simp only [if_neg hcomposes]
        exact ⟨rfl, hgone, (List.append_nil _).symm, hfile, fun hno => absurd hno hrefused⟩

/-! ### Runs -/

/-- The registration by an uploader for a file that a request is. -/
def Request.ownCall? (c : Catalog) (uploader fileHash : String) : Request → Option OwnCall
  | registerChunk u k =>
    if u = uploader ∧ k.fileHash = fileHash then some ⟨k, (c.block? k.blockHash).isSome⟩ else none
  | _ => none

/-- What such a registration is answered. -/
def Request.ownReply? (c : Catalog) (uploader fileHash : String) :
    Request → Option (Except StoreError InsertOutcome)
  | registerChunk u k =>
    if u = uploader ∧ k.fileHash = fileHash then some (c.answer (.registerChunk u k)).1 else none
  | _ => none

/-- The registrations by an uploader for a file among requests, in their order. -/
def ownCalls (c : Catalog) (uploader fileHash : String) : List Request → List OwnCall
  | [] => []
  | r :: rest => (r.ownCall? c uploader fileHash).toList ++ ownCalls (c.answer r).2 uploader fileHash rest

/-- What they are answered. -/
def ownReplies (c : Catalog) (uploader fileHash : String) : List Request → List (Except StoreError InsertOutcome)
  | [] => []
  | r :: rest => (r.ownReply? c uploader fileHash).toList ++ ownReplies (c.answer r).2 uploader fileHash rest

theorem Request.ownCall?_cases (c : Catalog) (uploader fileHash : String) (r : Request) :
    (r.ownCall? c uploader fileHash = none ∧ r.ownReply? c uploader fileHash = none) ∨
      ∃ k : Chunk, k.fileHash = fileHash ∧ r = .registerChunk uploader k := by
  cases r with
  | registerChunk u k =>
    by_cases hown : u = uploader ∧ k.fileHash = fileHash
    · obtain ⟨rfl, hfile⟩ := hown
      exact .inr ⟨k, hfile, rfl⟩
    · exact .inl ⟨if_neg hown, if_neg hown⟩
  | _ => exact .inl ⟨rfl, rfl⟩

theorem staged_answer {r : Request} (h : ∀ u k, r ≠ .registerChunk u k) : (c.answer r).2.staged = c.staged := by
  have hframe := framed c r
  generalize (c.answer r).2 = next at hframe
  cases hframe with
  | @registered u k _ _ => exact absurd rfl (h u k)
  | _ => rfl

theorem stagedFor_answer_of_ne {r : Request} (h : ∀ k, r ≠ .registerChunk uploader k) (fileHash : String) :
    (c.answer r).2.stagedFor uploader fileHash = c.stagedFor uploader fileHash := by
  by_cases hregister : ∃ u k, r = .registerChunk u k
  · obtain ⟨u, k, rfl⟩ := hregister
    have hne : uploader ≠ u := fun heq => h k (heq ▸ rfl)
    exact stagedFor_registerChunk_of_ne hne
  · rw [stagedFor, staged_answer fun u k hr => hregister ⟨u, k, hr⟩, stagedFor]

theorem stagedFor_answer_of_ownCall? {r : Request} (h : r.ownCall? c uploader fileHash = none) :
    (c.answer r).2.stagedFor uploader fileHash = c.stagedFor uploader fileHash := by
  by_cases hown : ∃ k, r = .registerChunk uploader k
  · obtain ⟨k, rfl⟩ := hown
    have hne : k.fileHash ≠ fileHash := fun heq => by simp [Request.ownCall?, heq] at h
    exact (sameFile_registerChunk_of_ne hne).stagedFor_eq
  · exact stagedFor_answer_of_ne (fun k hk => hown ⟨k, hk⟩) fileHash

theorem follows_run (h : ContentSound c) (hp : p.Lists (c.stagedFor uploader fileHash)) (requests : List Request)
    (hfile : (c.after requests).listChunks fileHash = []) :
    (p.after (c.ownCalls uploader fileHash requests)).Lists ((c.after requests).stagedFor uploader fileHash) ∧
      c.ownReplies uploader fileHash requests = p.replies (c.ownCalls uploader fileHash requests) := by
  induction requests generalizing c p with
  | nil => exact ⟨hp, rfl⟩
  | cons r rest ih =>
    have hnext : ContentSound (c.answer r).2 := contentSound_step (answer_step c r) h
    -- The file is in no catalog on the way, since it would have stayed there.
    have hnow : c.listChunks fileHash = [] := by
      by_contra hne
      exact hne ((listChunks_after (r :: rest) hne).symm.trans hfile)
    obtain ⟨hcall, hreply⟩ | ⟨k, rfl, rfl⟩ := r.ownCall?_cases c uploader fileHash
    · rw [ownCalls, ownReplies, hcall, hreply]
      exact ih hnext (stagedFor_answer_of_ownCall? hcall ▸ hp) hfile
    · have hstep := comesTo_registerChunk h hnow hp
      obtain ⟨hlists, hreplies⟩ := ih hnext hstep.staged hfile
      have hown : uploader = uploader ∧ k.fileHash = k.fileHash := ⟨rfl, rfl⟩
      rw [ownCalls, ownReplies, Request.ownCall?, Request.ownReply?, if_pos hown, if_pos hown, hreplies]
      exact ⟨hlists, congrArg (· :: _) hstep.reply⟩

/-! ### Files that are in the catalog -/

/-- Rows of a file are as many as a chunk says, and have its block at its position. -/
def Matches (rows : List Chunk) (k : Chunk) : Prop :=
  k.count = rows.length ∧ 0 ≤ k.index ∧ (rows[k.index.toNat]?).map Chunk.blockHash = some k.blockHash

/-- A registration is answered by the rows of its file. -/
structure AnsweredBy (rows : List Chunk) (c : Catalog) (uploader : String) (k : Chunk)
    (result : Except StoreError InsertOutcome × Catalog) : Prop where
  same : Matches rows k → result = (.ok .alreadyExists, c.unstage uploader k.fileHash)
  other : ¬Matches rows k → ∃ detail, result = (.error (.constraint detail), c)

theorem FileSound.find?_index (h : FileSound c fileHash n) {i : Int} (hinside : 0 ≤ i ∧ i < n) :
    ∃ row, (c.listChunks fileHash)[i.toNat]? = some row ∧
      ((c.listChunks fileHash).find? fun k => k.index == i) = some row := by
  have hlt : i.toNat < (c.listChunks fileHash).length := by
    rw [h.length_eq]
    omega
  have hdistinct : ((c.listChunks fileHash).map Chunk.index).Nodup := by
    rw [h.indexes]
    exact (ascending_range n).imp fun hlt => by omega
  have hindex : (c.listChunks fileHash)[i.toNat].index = i := by
    rw [index_getElem h.indexes hlt]
    omega
  refine ⟨_, List.getElem?_eq_getElem hlt, find?_eq_some_of_only (List.getElem_mem hlt) (by simpa using hindex) ?_⟩
  intro other hother hsame
  exact List.inj_on_of_nodup_map hdistinct hother (List.getElem_mem hlt) ((beq_iff_eq.mp hsame).trans hindex.symm)

/-- **The rows of a file that is in the catalog answer every registration for it.** -/
theorem answered_registerChunk (h : ContentSound c) (hfile : c.listChunks k.fileHash ≠ []) (uploader : String) :
    AnsweredBy (c.listChunks k.fileHash) c uploader k (c.registerChunk uploader k) := by
  obtain ⟨n, hn⟩ := h.files k.fileHash hfile
  have hlength := hn.length_eq
  obtain ⟨known, rest, hlist⟩ := List.exists_cons_of_ne_nil hfile
  have hknown : known.count = n := by
    obtain ⟨hmem, hown⟩ := mem_listChunks.mp (hlist ▸ List.mem_cons_self : known ∈ c.listChunks k.fileHash)
    exact hn.counts known hmem hown
  by_cases houtside : k.index < 0 ∨ k.count ≤ k.index
  · refine ⟨fun hmatches => ?_, fun _ => ⟨_, by rw [registerChunk, if_pos houtside]⟩⟩
    obtain ⟨hcount, hnonneg, hblock⟩ := hmatches
    rw [List.getElem?_eq_none (by omega)] at hblock
    cases hblock
  have haccepted (hconfirm : c.confirm known k = .ok ()) :
      c.registerChunk uploader k = (.ok .alreadyExists, c.unstage uploader k.fileHash) := by
    simp only [registerChunk, if_neg houtside, hlist, hconfirm]
  have hrefused {e : StoreError} (hconfirm : c.confirm known k = .error e) :
      c.registerChunk uploader k = (.error e, c) := by
    simp only [registerChunk, if_neg houtside, hlist, hconfirm]
  by_cases hcount : known.count = k.count
  · obtain ⟨row, hat, hfound⟩ := hn.find?_index (i := k.index) (by omega)
    by_cases hblock : row.blockHash = k.blockHash
    · have hmatches : Matches (c.listChunks k.fileHash) k :=
        ⟨by omega, by omega, by rw [hat]; exact congrArg some hblock⟩
      refine ⟨fun _ => haccepted ?_, fun hno => absurd hmatches hno⟩
      simp only [confirm, hcount, hfound, hblock, ne_eq, not_true, if_false]
    · have hdiffers : c.confirm known k =
          .error (.constraint s!"file {k.fileHash} has block {row.blockHash} at index {k.index}") := by
        simp only [confirm, hcount, hfound, ne_eq, not_true, if_false]
        exact if_pos hblock
      refine ⟨fun hmatches => ?_, fun _ => ⟨_, hrefused hdiffers⟩⟩
      obtain ⟨_, _, hsame⟩ := hmatches
      rw [hat] at hsame
      exact absurd (Option.some.inj hsame) hblock
  · refine ⟨fun hmatches => ?_, fun _ => ⟨_, hrefused (if_pos hcount)⟩⟩
    obtain ⟨hsame, _⟩ := hmatches
    exact absurd (by omega) hcount

/-- **In every catalog that requests have made: as long as a file is not in it, what an uploader has staged for the
file and is answered is what the uploader's own registrations make of no positions, and so is the next answer; no
other request touches it; and once the file is there, its rows stay and answer every registration for it.** -/
theorem reachable_staging_private (requests : List Request) (uploader fileHash : String) :
    let c := Catalog.empty.after requests
    let calls := Catalog.empty.ownCalls uploader fileHash requests
    (c.listChunks fileHash = [] →
        (Places.empty.after calls).Lists (c.stagedFor uploader fileHash) ∧
        Catalog.empty.ownReplies uploader fileHash requests = Places.empty.replies calls ∧
        ∀ k, k.fileHash = fileHash →
          ComesTo c uploader k (OwnCall.effect ⟨k, (c.block? k.blockHash).isSome⟩ (Places.empty.after calls))
            (c.answer (.registerChunk uploader k))) ∧
      (∀ r, (∀ k, r ≠ .registerChunk uploader k) →
        (c.answer r).2.stagedFor uploader fileHash = c.stagedFor uploader fileHash) ∧
      (c.listChunks fileHash ≠ [] → ∀ later,
        let d := c.after later
        d.listChunks fileHash = c.listChunks fileHash ∧ ∀ u k, k.fileHash = fileHash →
          AnsweredBy (c.listChunks fileHash) d u k (d.answer (.registerChunk u k))) := by
  intro c calls
  have h : ContentSound c := contentSound_after requests
  refine ⟨fun hfile => ?_, fun r hr => stagedFor_answer_of_ne hr fileHash, fun hfile later => ?_⟩
  · have hnothing : Places.empty.Lists (Catalog.empty.stagedFor uploader fileHash) := by
      have hnil : Catalog.empty.stagedFor uploader fileHash = [] := by simp [stagedFor, Catalog.empty]
      exact hnil.symm ▸ Places.lists_empty
    obtain ⟨hlists, hreplies⟩ := follows_run contentSound_empty hnothing requests hfile
    refine ⟨hlists, hreplies, fun k hk => ?_⟩
    subst hk
    exact comesTo_registerChunk h hfile hlists
  · intro d
    have hstays : d.listChunks fileHash = c.listChunks fileHash := listChunks_after later hfile
    have hsound : ContentSound d := after_induction (fun _ _ => contentSound_step) h later
    refine ⟨hstays, fun u k hk => ?_⟩
    subst hk
    rw [← hstays] at hfile ⊢
    exact answered_registerChunk hsound hfile u

end Depot.Catalog
