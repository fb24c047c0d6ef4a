import Depot.Proofs.Catalog.History
import Depot.Proofs.Content.Spelling
import Depot.Proofs.Service.ChunkBody

/-!
# Uploads of chunks

- `Sound`: rows of blocks and stored blocks correspond, every chunk is of such a block, and both stores are in
  order. It holds between operations.
- `Uploaded`: all that an upload can do to sound stores (`uploaded`).
- An upload keeps stores sound (`sound_uploadChunk`).
-/

namespace Depot.Service

open Content Time Objects

/-- The content of a block in the object store. -/
def Stores.object? (s : Stores) (real : Path) (h : BlockHash) : Option (List UInt8) :=
  match s.objects with
  | .files f => f.object? real h
  | .bucket _ => none

/-- Some stored block has this hash and this size. -/
def Held (objects : BlockHash → Option (List UInt8)) (blockHash : String) (size : Int) : Prop :=
  ∃ h data, blockHash = h.hex ∧ objects h = some data ∧ size = recordedSize data.length

theorem Held.mono {objects more : BlockHash → Option (List UInt8)} {blockHash : String} {size : Int}
    (h : Held objects blockHash size) (hmore : ∀ g data, objects g = some data → more g = some data) :
    Held more blockHash size := by
  obtain ⟨g, data, hhex, hobject, hsize⟩ := h
  exact ⟨g, data, hhex, hmore g data hobject, hsize⟩

/-- The stores are in order, and agree about blocks. -/
structure Sound (real : Path) (s : Stores) : Prop where
  files : ∃ f, s.objects = .files f ∧ BlockFiles f real ∧ f.uploads = []
  content : Catalog.ContentSound s.catalog
  history : Catalog.HistorySound s.catalog
  /-- A stored block has its hash. -/
  honest : ∀ h data, s.object? real h = some data → BlockHash.compute data = h
  /-- A stored block is recorded. -/
  recorded : ∀ h data, s.object? real h = some data → (s.catalog.block? h.hex).isSome
  /-- A recorded block is stored. -/
  blocks : ∀ row ∈ s.catalog.blocks, Held (s.object? real) row.blockHash row.size
  keys : ∀ row ∈ s.catalog.blocks, ∀ h : BlockHash, row.blockHash = h.hex → row.storageKey = h.objectKey
  chunks : ∀ k ∈ s.catalog.chunks, Held (s.object? real) k.blockHash k.blockSize
  staged : ∀ k ∈ s.catalog.staged, Held (s.object? real) k.chunk.blockHash k.chunk.blockSize

variable {c : Catalog} {f : FileStore} {real : Path} {settings : Settings} {request : UploadRequest}
  {body : List Frame} {now : DateTime}

theorem Sound.exists_files {s : Stores} (hs : Sound real s) : ∃ c f, s = ⟨c, .files f⟩ := by
  obtain ⟨f, hf, _⟩ := hs.files
  exact ⟨s.catalog, f, by rw [← hf]⟩

theorem Sound.blockFiles (hs : Sound real ⟨c, .files f⟩) : BlockFiles f real ∧ f.uploads = [] := by
  obtain ⟨g, hg, hfiles⟩ := hs.files
  rwa [ObjectStore.files.inj hg]

theorem Sound.contains_eq (hs : Sound real ⟨c, .files f⟩) {row : Catalog.StoredBlock} {h : BlockHash}
    (hknown : c.block? h.hex = some row) : f.contains h.objectKey = .ok true := by
  have hhash : row.blockHash = h.hex := by simpa using List.find?_some hknown
  obtain ⟨g, data, hhex, hobject, _⟩ := hs.blocks row (List.mem_of_find?_eq_some hknown)
  have hobject : f.object? real g = some data := hobject
  rw [hs.blockFiles.1.contains_eq, BlockHash.hex_injective (hhash.symm.trans hhex), hobject]
  rfl

/-- The chunk that an upload registers. -/
def chunkOf (request : UploadRequest) (now : DateTime) : Catalog.Chunk where
  fileHash := request.fileHash.hex
  index := request.chunkIndex
  blockHash := request.blockHash.hex
  blockSize := recordedSize request.size
  count := request.totalChunks
  createdAt := now

/-- The row that an upload records its block with. -/
abbrev rowOf (request : UploadRequest) (now : DateTime) : Catalog.StoredBlock where
  blockHash := request.blockHash.hex
  storageKey := request.blockHash.objectKey
  size := recordedSize request.size
  createdAt := now

/-- The catalog with the block of an upload behind all others. -/
def withBlock (c : Catalog) (request : UploadRequest) (now : DateTime) : Catalog :=
  { c with blocks := c.blocks ++ [rowOf request now] }

/-- An upload passes the checks that come before any change. -/
structure Admitted (settings : Settings) (c : Catalog) (request : UploadRequest) : Prop where
  valid : request.validate settings.maxBlockSize = .ok ()
  permitted : c.canUpload request.uploaderId

theorem validate_eq_ok {r : UploadRequest} {maxBlockSize : Nat} (hindex : r.chunkIndex < r.totalChunks)
    (hsize : r.size ≤ maxBlockSize) : r.validate maxBlockSize = .ok () := by
  rw [UploadRequest.validate, if_neg (by omega), if_neg (by omega), if_neg (by omega)]

/-- What an upload ends with, and what it leaves. -/
inductive Uploaded (settings : Settings) (real : Path) (request : UploadRequest) (body : List Frame) (now : DateTime)
    (c : Catalog) (f : FileStore) : Except ServiceError UploadOutcome × Stores → Prop where
  | invalid {e : Content.Error} (refused : request.validate settings.maxBlockSize = .error e) :
    Uploaded settings real request body now c f (.error (.ofContent e), ⟨c, .files f⟩)
  | forbidden {why : String} (refused : c.canUpload request.uploaderId = false) :
    Uploaded settings real request body now c f (.error (.insufficientPermission why), ⟨c, .files f⟩)
  | otherSize {row : Catalog.StoredBlock} {why : String} (admitted : Admitted settings c request)
    (known : c.block? request.blockHash.hex = some row) (size : row.size ≠ recordedSize request.size) :
    Uploaded settings real request body now c f (.error (.malformedRequest why), ⟨c, .files f⟩)
  | rejected {e : ServiceError} {next : FileStore} (admitted : Admitted settings c request)
    (new : c.block? request.blockHash.hex = none) (read : readBody request [] body = .error e)
    (leaves : Leaves f next real []) (objects : ∀ g, next.object? real g = f.object? real g) :
    Uploaded settings real request body now c f (.error e, ⟨c, .files next⟩)
  | linked {row : Catalog.StoredBlock} (admitted : Admitted settings c request)
    (known : c.block? request.blockHash.hex = some row) (size : row.size = recordedSize request.size) :
    Uploaded settings real request body now c f
      (((c.registerChunk request.uploaderId (chunkOf request now)).1.mapError .ofStore).map
        fun _ => .duplicateAccepted, ⟨(c.registerChunk request.uploaderId (chunkOf request now)).2, .files f⟩)
  | stored {data : List UInt8} {next : FileStore} (admitted : Admitted settings c request)
    (new : c.block? request.blockHash.hex = none) (read : readBody request [] body = .ok data)
    (leaves : Leaves f next real [])
    (objects : ∀ g, next.object? real g = if g = request.blockHash then some data else f.object? real g) :
    Uploaded settings real request body now c f
      ((((withBlock c request now).registerChunk request.uploaderId (chunkOf request now)).1.mapError .ofStore).map
        fun _ => .uploaded,
        ⟨((withBlock c request now).registerChunk request.uploaderId (chunkOf request now)).2, .files next⟩)

/-! ### The steps of an upload -/

theorem perform_linkChunk (s : Stores) :
    perform (linkChunk request now) s =
      (((s.catalog.registerChunk request.uploaderId (chunkOf request now)).1.mapError .ofStore).map fun _ => (),
        { s with catalog := (s.catalog.registerChunk request.uploaderId (chunkOf request now)).2 }) := by
  rw [linkChunk, perform_discard, perform_askCatalog]
  rfl

theorem perform_linkChunk_bind (s : Stores) (outcome : UploadOutcome) :
    perform (linkChunk request now >>= fun _ => pure outcome) s =
      (((s.catalog.registerChunk request.uploaderId (chunkOf request now)).1.mapError .ofStore).map fun _ => outcome,
        { s with catalog := (s.catalog.registerChunk request.uploaderId (chunkOf request now)).2 }) := by
  rw [perform_bind, perform_linkChunk]
  cases (s.catalog.registerChunk request.uploaderId (chunkOf request now)).1 <;> rfl

theorem perform_canUpload (s : Stores) (user : String) :
    perform (askCatalog (.canUpload user)) s = (.ok (s.catalog.canUpload user), s) := by
  rw [perform_askCatalog]
  rfl

theorem block?_withBlock (hnew : c.block? request.blockHash.hex = none) (blockHash : String) :
    (withBlock c request now).block? blockHash =
      if blockHash = request.blockHash.hex then some (rowOf request now) else c.block? blockHash := by
  rw [Catalog.block?, withBlock, List.find?_append]
  split
  · rename_i heq
    rw [heq]
    rw [Catalog.block?] at hnew
    rw [hnew]
    simp [rowOf]
  · rename_i hne
    have hrow : ([rowOf request now].find? fun b => b.blockHash == blockHash) = none := by
      simp [rowOf, Ne.symm hne]
    rw [hrow, Option.or_none]
    rfl

theorem deleteBlock_withBlock (hcontent : Catalog.ContentSound c) (hnew : c.block? request.blockHash.hex = none) :
    (withBlock c request now).deleteBlock request.blockHash.hex = .ok (true, c) := by
  have hother : ∀ k, (k ∈ c.chunks ∨ ∃ u, ⟨u, k⟩ ∈ c.staged) → (k.blockHash == request.blockHash.hex) = false := by
    intro k hk
    have hrecorded := hcontent.recorded hk
    apply beq_eq_false_iff_ne.mpr
    intro heq
    rw [heq, hnew] at hrecorded
    cases hrecorded
  have hfree : (withBlock c request now).isReferenced request.blockHash.hex = false := by
    rw [Catalog.isReferenced, Bool.or_eq_false_iff, List.any_eq_false, List.any_eq_false]
    exact ⟨fun k hk => by simp [hother k (.inl hk)], fun k hk => by simp [hother k.chunk (.inr ⟨k.uploader, hk⟩)]⟩
  have hkeep : c.blocks.filter (fun b => b.blockHash != request.blockHash.hex) = c.blocks := by
    apply List.filter_eq_self.mpr
    intro b hb
    have := List.find?_eq_none.mp hnew b hb
    simpa using this
  have hblocks :
      (withBlock c request now).blocks.filter (fun b => b.blockHash != request.blockHash.hex) = c.blocks := by
    rw [withBlock, List.filter_append, hkeep]
    simp [rowOf]
  rw [Catalog.deleteBlock, block?_withBlock hnew, if_pos rfl]
  dsimp only
  rw [hfree, hblocks]
  rfl

theorem putBlock_new (hnew : c.block? request.blockHash.hex = none) (now : DateTime) :
    c.putBlock (rowOf request now) = (.inserted, withBlock c request now) := by
  rw [Catalog.putBlock, hnew]
  rfl

theorem putBlock_known (hknown : (c.block? request.blockHash.hex).isSome) (now : DateTime) :
    c.putBlock (rowOf request now) = (.alreadyExists, c) := by
  obtain ⟨row, hrow⟩ := Option.isSome_iff_exists.mp hknown
  rw [Catalog.putBlock, hrow]

theorem perform_putBlock (s : Stores) (row : Catalog.StoredBlock) :
    perform (askCatalog (.putBlock row)) s =
      (.ok (s.catalog.putBlock row).1, { s with catalog := (s.catalog.putBlock row).2 }) := by
  rw [perform_askCatalog]
  rfl

theorem perform_getBlock (s : Stores) (blockHash : String) :
    perform (askCatalog (.getBlock blockHash)) s = (.ok (s.catalog.block? blockHash), s) := by
  rw [perform_askCatalog]
  rfl

theorem perform_uploadChunk_new {s : Stores} (hadmitted : Admitted settings s.catalog request)
    (hnew : s.catalog.block? request.blockHash.hex = none) (body : List Frame) (now : DateTime) :
    perform (uploadChunk settings request body now) s =
      perform (uploadNew request .inserted body now) { s with catalog := withBlock s.catalog request now } := by
  have hinserted : InsertOutcome.inserted.isInserted = true := rfl
  rw [uploadChunk, hadmitted.valid, perform_bind_ok rfl, perform_bind_ok (perform_canUpload _ _), hadmitted.permitted]
  simp only [Bool.not_true, Bool.false_eq_true, if_false]
  rw [perform_bind_ok (perform_putBlock _ _), putBlock_new hnew]
  simp only [hinserted, if_true]

theorem perform_uploadChunk_known {s : Stores} {row : Catalog.StoredBlock}
    (hadmitted : Admitted settings s.catalog request) (hknown : s.catalog.block? request.blockHash.hex = some row)
    (body : List Frame) (now : DateTime) :
    perform (uploadChunk settings request body now) s =
      if row.size ≠ recordedSize request.size then
        (.error (.malformedRequest
          s!"declared size {request.size} does not match stored block size {row.size}"), s)
      else
        perform (askObjects (.contains request.blockHash.objectKey) >>= fun found =>
          if found then linkChunk request now >>= fun _ => pure .duplicateAccepted
          else uploadNew request .alreadyExists body now) s := by
  have hother : InsertOutcome.alreadyExists.isInserted = false := rfl
  rw [uploadChunk, hadmitted.valid, perform_bind_ok rfl, perform_bind_ok (perform_canUpload _ _), hadmitted.permitted]
  simp only [Bool.not_true, Bool.false_eq_true, if_false]
  rw [perform_bind_ok (perform_putBlock _ _), putBlock_known (by rw [hknown]; rfl)]
  simp only [hother, Bool.false_eq_true, if_false]
  rw [perform_bind_ok (perform_getBlock _ _), hknown]
  dsimp only
  split <;> rfl

theorem uploaded_uploadNew (hcontent : Catalog.ContentSound c) (hf : BlockFiles f real) (hidle : f.uploads = [])
    (hadmitted : Admitted settings c request) (hnew : c.block? request.blockHash.hex = none) (body : List Frame)
    (now : DateTime) :
    Uploaded settings real request body now c f
      (perform (uploadNew request .inserted body now) ⟨withBlock c request now, .files f⟩) := by
  obtain ⟨next, hstore, hleaves, hobjects⟩ :=
    @perform_storeVerified (withBlock c request now) f real request hf hidle body
  have hstored : perform (ExceptT.lift (storeVerified request body).run : Op (Except ServiceError Unit))
      ⟨withBlock c request now, .files f⟩ =
      (.ok ((readBody request [] body).map fun _ => ()), ⟨withBlock c request now, .files next⟩) := by
    rw [perform_lift_run, hstore]
  rw [uploadNew, perform_bind_ok hstored]
  cases hread : readBody request [] body with
  | ok data =>
    simp only [hread] at hobjects
    simp only [map_ok]
    rw [perform_linkChunk_bind]
    exact .stored hadmitted hnew hread hleaves hobjects
  | error e =>
    simp only [hread] at hobjects
    have hdelete : perform (attempt (.catalog (.deleteBlock request.blockHash.hex)))
        ⟨withBlock c request now, .files next⟩ = (.ok (.ok true), ⟨c, .files next⟩) := by
      rw [perform_attempt]
      simp only [Stores.answer, Catalog.answer, deleteBlock_withBlock hcontent hnew, Catalog.commitOr]
    have hfailed : perform (discard (attempt (.catalog (.deleteBlock request.blockHash.hex))) >>= fun _ =>
        (throw e : Op UploadOutcome)) ⟨withBlock c request now, .files next⟩ = (.error e, ⟨c, .files next⟩) := by
      rw [perform_bind, perform_discard, hdelete]
      rfl
    simp only [map_error]
    exact hfailed ▸ .rejected hadmitted hnew hread hleaves hobjects

/-- **An upload to sound stores does one of six things.** -/
theorem uploaded (hs : Sound real ⟨c, .files f⟩) (settings : Settings) (request : UploadRequest) (body : List Frame)
    (now : DateTime) :
    Uploaded settings real request body now c f (perform (uploadChunk settings request body now) ⟨c, .files f⟩) := by
  obtain ⟨hf, hidle⟩ := hs.blockFiles
  cases hvalid : request.validate settings.maxBlockSize with
  | error e =>
    rw [uploadChunk, hvalid]
    exact .invalid hvalid
  | ok =>
    cases hcan : c.canUpload request.uploaderId with
    | false =>
      rw [uploadChunk, hvalid, perform_bind_ok rfl, perform_bind_ok (perform_canUpload _ _), hcan]
      exact .forbidden hcan
    | true =>
      have hadmitted : Admitted settings c request := ⟨hvalid, hcan⟩
      cases hrow : c.block? request.blockHash.hex with
      | none =>
        rw [perform_uploadChunk_new (s := ⟨c, .files f⟩) hadmitted hrow]
        exact uploaded_uploadNew hs.content hf hidle hadmitted hrow body now
      | some row =>
        rw [perform_uploadChunk_known (s := ⟨c, .files f⟩) hadmitted hrow]
        by_cases hsize : row.size = recordedSize request.size
        · have hcontains : perform (askObjects (.contains request.blockHash.objectKey)) ⟨c, .files f⟩ =
              (.ok true, ⟨c, .files f⟩) :=
            perform_askFiles (by rw [answer_contains, hs.contains_eq hrow])
          rw [if_neg (not_not.mpr hsize), perform_bind_ok hcontains, if_pos rfl, perform_linkChunk_bind]
          exact .linked hadmitted hrow hsize
        · rw [if_pos hsize]
          exact .otherSize hadmitted hrow hsize

/-! ### Uploads keep stores sound -/

theorem Sound.withFiles (hs : Sound real ⟨c, .files f⟩) {next : FileStore} (hleaves : Leaves f next real [])
    (hobjects : ∀ g, next.object? real g = f.object? real g) : Sound real ⟨c, .files next⟩ := by
  have hobject : Stores.object? ⟨c, .files next⟩ real = Stores.object? ⟨c, .files f⟩ real := funext hobjects
  exact {
    files := ⟨next, rfl, hleaves.files, List.map_eq_nil_iff.mp hleaves.uploads⟩
    content := hs.content
    history := hs.history
    honest := by rw [hobject]; exact hs.honest
    recorded := by rw [hobject]; exact hs.recorded
    blocks := by rw [hobject]; exact hs.blocks
    keys := hs.keys
    chunks := by rw [hobject]; exact hs.chunks
    staged := by rw [hobject]; exact hs.staged }

theorem Sound.register {s : Stores} (hs : Sound real s) (uploader : String) {k : Catalog.Chunk}
    (hheld : Held (s.object? real) k.blockHash k.blockSize) :
    Sound real { s with catalog := (s.catalog.registerChunk uploader k).2 } where
  files := hs.files
  content := Catalog.contentSound_step (Catalog.registerChunk_step _ _ _) hs.content
  history := Catalog.historySound_step (Catalog.registerChunk_step _ _ _) hs.history
  honest := hs.honest
  recorded h data hobject := by
    simp only [Catalog.block?, Catalog.blocks_registerChunk]
    exact hs.recorded h data hobject
  blocks := by
    simp only [Catalog.blocks_registerChunk]
    exact hs.blocks
  keys := by
    simp only [Catalog.blocks_registerChunk]
    exact hs.keys
  chunks j hj := by
    rcases Catalog.mem_chunks_registerChunk hj with hold | ⟨u, hold⟩ | rfl
    · exact hs.chunks j hold
    · exact hs.staged ⟨u, j⟩ hold
    · exact hheld
  staged j hj := by
    rcases Catalog.mem_staged_registerChunk hj with hold | rfl
    · exact hs.staged j hold
    · exact hheld

theorem Sound.record (hs : Sound real ⟨c, .files f⟩) {next : FileStore} {data : List UInt8}
    (hnew : c.block? request.blockHash.hex = none) (hhash : BlockHash.compute data = request.blockHash)
    (hsize : data.length = request.size) (hleaves : Leaves f next real [])
    (hobjects : ∀ g, next.object? real g = if g = request.blockHash then some data else f.object? real g)
    (now : DateTime) : Sound real ⟨withBlock c request now, .files next⟩ := by
  have hmore : ∀ g old, f.object? real g = some old → next.object? real g = some old := by
    intro g old hold
    rw [hobjects, if_neg, hold]
    rintro rfl
    have hrecorded := hs.recorded _ _ hold
    rw [hnew] at hrecorded
    cases hrecorded
  have hstep : Catalog.Step c (withBlock c request now) := .recorded hnew
  exact {
    files := ⟨next, rfl, hleaves.files, List.map_eq_nil_iff.mp hleaves.uploads⟩
    content := Catalog.contentSound_step hstep hs.content
    history := Catalog.historySound_step hstep hs.history
    honest := by
      intro h bytes hobject
      have hobject : next.object? real h = some bytes := hobject
      rw [hobjects] at hobject
      split at hobject
      · cases hobject
        rw [hhash, ‹h = _›]
      · exact hs.honest h bytes hobject
    recorded := by
      intro h bytes hobject
      have hobject : next.object? real h = some bytes := hobject
      rw [hobjects] at hobject
      rw [block?_withBlock hnew]
      split
      · rfl
      · rename_i hne
        rw [if_neg fun heq => hne (congrArg BlockHash.hex heq)] at hobject
        exact hs.recorded h bytes hobject
    blocks := by
      intro row hrow
      rcases List.mem_append.mp hrow with hold | hlast
      · exact (hs.blocks row hold).mono hmore
      · rw [List.mem_singleton.mp hlast]
        exact ⟨request.blockHash, data, rfl, (hobjects _).trans (if_pos rfl), by rw [hsize]⟩
    keys := by
      intro row hrow h hhex
      rcases List.mem_append.mp hrow with hold | hlast
      · exact hs.keys row hold h hhex
      · rw [List.mem_singleton.mp hlast] at hhex ⊢
        rw [← BlockHash.hex_injective hhex]
    chunks := fun k hk => (hs.chunks k hk).mono hmore
    staged := fun k hk => (hs.staged k hk).mono hmore }

theorem sound_uploadChunk {s : Stores} (hs : Sound real s) (settings : Settings) (request : UploadRequest)
    (body : List Frame) (now : DateTime) : Sound real (perform (uploadChunk settings request body now) s).2 := by
  obtain ⟨c, f, rfl⟩ := hs.exists_files
  have h := uploaded hs settings request body now
  generalize perform (uploadChunk settings request body now) ⟨c, .files f⟩ = result at h
  cases h with
  | rejected _ _ _ leaves objects => exact hs.withFiles leaves objects
  | @linked row _ known size =>
    apply hs.register _
    have hhash : row.blockHash = request.blockHash.hex := by simpa using List.find?_some known
    rw [chunkOf]
    dsimp only
    rw [← hhash, ← size]
    exact hs.blocks row (List.mem_of_find?_eq_some known)
  | @stored data next _ new read leaves objects =>
    obtain ⟨hsize, hhash⟩ := readBody_eq_ok read
    apply (hs.record new hhash hsize leaves objects now).register _
    exact ⟨request.blockHash, data, rfl, (objects _).trans (if_pos rfl), by rw [hsize, chunkOf]⟩
  | _ => exact hs

theorem perform_uploadChunk_stored {data : List UInt8} (hs : Sound real ⟨c, .files f⟩)
    (hadmitted : Admitted settings c request) (hnew : c.block? request.blockHash.hex = none)
    (hread : readBody request [] body = .ok data) (now : DateTime) :
    ∃ next, perform (uploadChunk settings request body now) ⟨c, .files f⟩ =
      ((((withBlock c request now).registerChunk request.uploaderId (chunkOf request now)).1.mapError .ofStore).map
        fun _ => .uploaded,
        ⟨((withBlock c request now).registerChunk request.uploaderId (chunkOf request now)).2, .files next⟩) := by
  have h := uploaded hs settings request body now
  generalize perform (uploadChunk settings request body now) ⟨c, .files f⟩ = result at h ⊢
  cases h with
  | stored _ _ _ _ _ => exact ⟨_, rfl⟩
  | invalid refused => cases hadmitted.valid.symm.trans refused
  | forbidden refused => cases Eq.trans (b := c.canUpload request.uploaderId) hadmitted.permitted.symm refused
  | otherSize _ known => cases hnew.symm.trans known
  | linked _ known => cases hnew.symm.trans known
  | rejected _ _ read => cases hread.symm.trans read

theorem perform_uploadChunk_first {s : Stores} {data : List UInt8} (hs : Sound real s)
    (hnone : s.catalog.blocks = [] ∧ s.catalog.chunks = [] ∧ s.catalog.staged = [])
    (hadmitted : Admitted settings s.catalog request) (hread : readBody request [] body = .ok data)
    (hseveral : 1 < request.totalChunks) (now : DateTime) :
    ∃ next, perform (uploadChunk settings request body now) s = (.ok .uploaded, next) ∧ next.catalog.staged ≠ [] := by
  obtain ⟨c, f, rfl⟩ := hs.exists_files
  obtain ⟨hblocks, hchunks, hstaged⟩ : c.blocks = [] ∧ c.chunks = [] ∧ c.staged = [] := hnone
  have hblock : c.block? request.blockHash.hex = none := by
    rw [Catalog.block?, hblocks]
    rfl
  have hinside : request.chunkIndex < request.totalChunks := by
    have hvalid := hadmitted.valid
    unfold UploadRequest.validate at hvalid
    grind
  obtain ⟨next, hupload⟩ := perform_uploadChunk_stored hs hadmitted hblock hread now
  have hstage : (withBlock c request now).registerChunk request.uploaderId (chunkOf request now) =
      (.ok .inserted, (withBlock c request now).stage request.uploaderId (chunkOf request now)) := by
    apply Catalog.registerChunk_first ⟨Int.natCast_nonneg _, Int.ofNat_lt.mpr hinside⟩ (Int.ofNat_lt.mpr hseveral)
    · exact Catalog.listChunks_eq_nil_iff.mpr (by rw [withBlock, hchunks]; rfl)
    · rw [chunkOf, block?_withBlock hblock, if_pos rfl]
      rfl
    · simp [Catalog.stagedFor, withBlock, hstaged]
  rw [hupload, hstage]
  exact ⟨_, rfl, List.append_ne_nil_of_right_ne_nil _ (List.cons_ne_nil _ _)⟩

end Depot.Service
