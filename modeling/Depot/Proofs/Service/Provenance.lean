import Depot.Proofs.Service.FileUpload

/-!
# Where content comes from

All that is stored, and all rows of files, have come with uploads.

- `ComesFrom`: stored content is of some kind, and so are the rows of files. Operations whose uploads are of these kinds
  (`Brings`) keep it, one by one (`comesFrom_act`) and in a run (`comesFrom_after`).
- `collisionless_afterTurns`: while nothing is uploaded but pieces of one file, no content meets another.
-/

namespace Depot.Service

open Content Time Objects

variable {settings : Settings} {real : Path} {s : Stores} {c d : Catalog} {f : FileStore} {user : String}
  {pieces : List (List UInt8)} {D : List UInt8 → Prop} {R : Catalog.Chunk → Prop}

/-- An upload leaves the catalog, or registers its chunk, for which it may record its block before. -/
theorem catalog_uploadChunk (hs : Sound real s) (settings : Settings) (request : UploadRequest) (body : List Frame)
    (now : DateTime) :
    (perform (uploadChunk settings request body now) s).2.catalog = s.catalog ∨
      ∃ d, (d = s.catalog ∨ d = withBlock s.catalog request now) ∧
        (perform (uploadChunk settings request body now) s).2.catalog =
          (d.registerChunk request.uploaderId (chunkOf request now)).2 := by
  obtain ⟨c, f, rfl⟩ := hs.exists_files
  have h := uploaded hs settings request body now
  generalize perform (uploadChunk settings request body now) ⟨c, .files f⟩ = result at h
  cases h with
  | linked _ _ _ => exact .inr ⟨c, .inl rfl, rfl⟩
  | stored _ _ _ _ _ => exact .inr ⟨withBlock c request now, .inr rfl, rfl⟩
  | _ => exact .inl rfl

theorem object?_uploadChunk (hs : Sound real s) {request : UploadRequest} {body : List Frame} {now : DateTime}
    {h : BlockHash} {data : List UInt8}
    (hobject : (perform (uploadChunk settings request body now) s).2.object? real h = some data) :
    s.object? real h = some data ∨ readBody request [] body = .ok data := by
  obtain ⟨c, f, rfl⟩ := hs.exists_files
  have hcases := uploaded hs settings request body now
  generalize perform (uploadChunk settings request body now) ⟨c, .files f⟩ = result at hcases hobject
  cases hcases with
  | rejected _ _ _ _ objects => exact .inl ((objects h).symm.trans hobject)
  | stored _ _ read _ objects =>
    have hstored := (objects h).symm.trans hobject
    split at hstored
    · exact .inr (Option.some.inj hstored ▸ read)
    · exact .inl hstored
  | _ => exact .inl hobject

/-! ### Kinds of content -/

structure ComesFrom (real : Path) (D : List UInt8 → Prop) (R : Catalog.Chunk → Prop) (s : Stores) : Prop where
  objects : ∀ h data, s.object? real h = some data → D data
  chunks : ∀ k ∈ s.catalog.chunks, R k
  staged : ∀ k ∈ s.catalog.staged, R k.chunk

/-- If an operation uploads anything, content and row are of these kinds. -/
def Operation.Brings (D : List UInt8 → Prop) (R : Catalog.Chunk → Prop) (op : Operation) : Prop :=
  ∀ request body now, op = .upload request body now →
    (∀ data, readBody request [] body = .ok data → D data) ∧ R (chunkOf request now)

theorem ComesFrom.mono {D' : List UInt8 → Prop} {R' : Catalog.Chunk → Prop} (h : ComesFrom real D R s)
    (hD : ∀ data, D data → D' data) (hR : ∀ k, R k → R' k) : ComesFrom real D' R' s where
  objects g data hobject := hD data (h.objects g data hobject)
  chunks k hk := hR k (h.chunks k hk)
  staged k hk := hR k.chunk (h.staged k hk)

theorem comesFrom_fresh (hfresh : Fresh f real) : ComesFrom real D R ⟨.empty, .files f⟩ where
  objects h data hobject := by cases (hfresh.object?_eq h).symm.trans hobject
  chunks k hk := by cases hk
  staged k hk := by cases hk

theorem comesFrom_registerChunk (hchunks : ∀ k ∈ c.chunks, R k) (hstaged : ∀ k ∈ c.staged, R k.chunk)
    {uploader : String} {k : Catalog.Chunk} (hk : R k) :
    (∀ j ∈ (c.registerChunk uploader k).2.chunks, R j) ∧ ∀ j ∈ (c.registerChunk uploader k).2.staged, R j.chunk := by
  refine ⟨fun j hj => ?_, fun j hj => ?_⟩
  · rcases Catalog.mem_chunks_registerChunk hj with hold | ⟨u, hold⟩ | rfl
    · exact hchunks j hold
    · exact hstaged _ hold
    · exact hk
  · rcases Catalog.mem_staged_registerChunk hj with hold | rfl
    · exact hstaged j hold
    · exact hk

theorem comesFrom_act (hs : Sound real s) (settings : Settings) {op : Operation} (hop : op.Brings D R)
    (h : ComesFrom real D R s) : ComesFrom real D R (perform (op.act settings) s).2 := by
  rcases upload_or_quiet op with ⟨request, body, now, rfl⟩ | hquiet
  · obtain ⟨hdata, hrow⟩ := hop request body now rfl
    rw [perform_upload]
    have hobjects : ∀ g data, (perform (uploadChunk settings request body now) s).2.object? real g = some data →
        D data := fun g data hobject => (object?_uploadChunk hs hobject).elim (h.objects g data) (hdata data)
    obtain hsame | ⟨d, hd, hcatalog⟩ := catalog_uploadChunk hs settings request body now
    · exact ⟨hobjects, hsame ▸ h.chunks, hsame ▸ h.staged⟩
    · have hchunks : d.chunks = s.catalog.chunks := by rcases hd with rfl | rfl <;> rfl
      have hstaged : d.staged = s.catalog.staged := by rcases hd with rfl | rfl <;> rfl
      obtain ⟨hrows, hwaiting⟩ := comesFrom_registerChunk (c := d) (hchunks ▸ h.chunks) (hstaged ▸ h.staged) hrow
      exact ⟨hobjects, hcatalog ▸ hrows, hcatalog ▸ hwaiting⟩
  · have hleft := untouched_act settings op hquiet s
    refine ⟨fun g data hobject => h.objects g data ?_, hleft.content.chunks ▸ h.chunks,
      hleft.content.staged ▸ h.staged⟩
    rwa [Stores.object?, hleft.objects] at hobject

theorem comesFrom_after (hs : Sound real s) (settings : Settings) {ops : List Operation}
    (hops : ∀ op ∈ ops, op.Brings D R) (h : ComesFrom real D R s) : ComesFrom real D R (after settings ops s) := by
  induction ops generalizing s with
  | nil => exact h
  | cons op rest ih =>
    obtain ⟨hop, hrest⟩ := List.forall_mem_cons.mp hops
    exact ih (sound_act settings op hs) hrest (comesFrom_act hs settings hop h)

theorem comesFrom_nothing (hfresh : Fresh f real) (settings : Settings) {history : List Operation}
    (hquiet : ∀ op ∈ history, ∀ request body now, op ≠ .upload request body now) :
    ComesFrom real (fun _ => False) (fun _ => False) (after settings history ⟨.empty, .files f⟩) :=
  comesFrom_after (sound_fresh hfresh) settings (fun op hop _ _ _ hupload => absurd hupload (hquiet op hop _ _ _))
    (comesFrom_fresh hfresh)

/-! ### Pieces of one file -/

/-- No two pieces that differ have the same hash. -/
def HashedApart (pieces : List (List UInt8)) : Prop :=
  ∀ data ∈ pieces, ∀ piece ∈ pieces, Hash.compute data = Hash.compute piece → data = piece

instance (pieces : List (List UInt8)) : Decidable (HashedApart pieces) :=
  inferInstanceAs
    (Decidable (∀ data ∈ pieces, ∀ piece ∈ pieces, Hash.compute data = Hash.compute piece → data = piece))

theorem brings_piece (user : String) (i : Fin pieces.length) {frames : List (List UInt8)}
    (whole : frames.flatten = pieces.get i) (now : DateTime) :
    (Operation.upload (pieceRequest user pieces i) (frames.map .data) now).Brings (· ∈ pieces) (PieceRow pieces) := by
  intro request body time heq
  cases heq
  refine ⟨fun data hdata => ?_, pieceRow_chunkOf user i now⟩
  have hread : pieces.get i = data := Except.ok.inj ((readBody_frames user whole).symm.trans hdata)
  rw [← hread]
  exact List.getElem_mem _

theorem ComesFrom.collisionless (hs : Sound real s) (h : ComesFrom real (· ∈ pieces) (PieceRow pieces) s)
    (hapart : HashedApart pieces) : Collisionless real pieces s where
  blocks g data piece hobject := hapart data (h.objects g data hobject) piece
  lists blocks hne hrows _ := by
    obtain ⟨n, hfile⟩ := hs.content.files _ hne
    have hpieces : ∀ k ∈ s.catalog.listChunks (fileOf pieces).hex, PieceRow pieces k :=
      fun k hk => h.chunks k (Catalog.mem_listChunks.mp hk).1
    obtain ⟨k, hk⟩ := List.exists_mem_of_ne_nil _ hne
    obtain ⟨hmem, hname⟩ := Catalog.mem_listChunks.mp hk
    obtain rfl : n = pieces.length := by
      have hcount := hfile.counts k hmem hname
      rw [(hpieces k hk).count] at hcount
      omega
    have hhexes := map_blockHash_eq hpieces hfile.indexes
    rw [hrows, hexes_eq] at hhexes
    rw [List.map_injective_iff.mpr (fun _ _ => BlockHash.hex_injective) hhexes]

theorem collisionless_afterTurns (hs : Sound real s) (h : ComesFrom real (· ∈ pieces) (PieceRow pieces) s)
    (settings : Settings) {turns : List (Turn user pieces)}
    (hothers : ∀ op someone, Turn.other op someone ∈ turns → op.Brings (· ∈ pieces) (PieceRow pieces))
    (hapart : HashedApart pieces) : Collisionless real pieces (afterTurns settings turns s) := by
  refine (comesFrom_after hs settings (fun op hop => ?_) h).collisionless (sound_afterTurns settings turns hs) hapart
  obtain ⟨turn, hturn, rfl⟩ := List.mem_map.mp hop
  cases turn with
  | piece i frames whole now => exact brings_piece user i whole now
  | other op someone => exact hothers op someone hturn

theorem holds_first (hs : Sound real s) (hnothing : ComesFrom real (fun _ => False) (fun _ => False) s)
    (hsizes : ∀ piece ∈ pieces, piece.length ≤ settings.maxBlockSize) (hcan : s.catalog.canUpload user)
    {turns : List (Turn user pieces)}
    (hothers : ∀ op someone, Turn.other op someone ∈ turns → op.Brings (· ∈ pieces) (PieceRow pieces))
    (hapart : HashedApart pieces) (hne : pieces ≠ []) (hall : ∀ i, Turn.Uploads turns i) :
    Holds real pieces (afterTurns settings turns s) := by
  have hpieces : ComesFrom real (· ∈ pieces) (PieceRow pieces) s :=
    hnothing.mono (fun _ => False.elim) fun _ => False.elim
  have hnone : s.catalog.stagedFor user (fileOf pieces).hex = [] :=
    List.eq_nil_iff_forall_not_mem.mpr fun k hk => hnothing.staged ⟨user, k⟩ (Catalog.mem_stagedFor.mp hk).1
  exact (holds_after hs hsizes hcan hnone turns (collisionless_afterTurns hs hpieces settings hothers hapart) hne
    hall).2

end Depot.Service
