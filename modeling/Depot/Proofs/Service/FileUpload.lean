import Depot.Proofs.Content.Pieces
import Depot.Proofs.Service.Operation

/-!
# Uploading a file piece by piece

A user uploads the pieces of a file in any order, any of them more than once, while others do what they like.

- `Turn`: what happens next; `Collisionless`: no other content has a hash that the file needs.
- `Progress`: what the user has staged is of the file, and until the file is catalogued all that was uploaded is
  staged. Each turn keeps it, and each upload succeeds (`uploads_after`).
- `Holds`: the file is there; once each piece was uploaded it is (`holds_after`), and it stays.
-/

namespace Depot.Service

open Content Time Objects

variable {settings : Settings} {real : Path} {s t : Stores} {c : Catalog} {user : String}
  {pieces : List (List UInt8)} {done : Fin pieces.length → Prop}

/-- The file that pieces make up. -/
def fileOf (pieces : List (List UInt8)) : FileHash := .ofBlocks (pieces.map .compute)

/-- The texts of the hashes of pieces. -/
def hexes (pieces : List (List UInt8)) : List String := pieces.map fun piece => (BlockHash.compute piece).hex

theorem hexes_eq (pieces : List (List UInt8)) : hexes pieces = (pieces.map BlockHash.compute).map BlockHash.hex := by
  rw [List.map_map]
  rfl

/-- The request that uploads a piece of a file at its place. -/
def pieceRequest (user : String) (pieces : List (List UInt8)) (i : Fin pieces.length) : UploadRequest where
  uploaderId := user
  fileHash := fileOf pieces
  chunkIndex := i
  totalChunks := pieces.length
  blockHash := .compute pieces[i]
  size := pieces[i].length

/-- What happens while a user uploads a file: a piece of it arrives in frames, or someone else does something. -/
inductive Turn (user : String) (pieces : List (List UInt8)) where
  | piece (i : Fin pieces.length) (frames : List (List UInt8)) (whole : frames.flatten = pieces[i]) (now : DateTime)
  | other (op : Operation) (someone : user ≠ op.user)

def Turn.operation : Turn user pieces → Operation
  | piece i frames _ now => .upload (pieceRequest user pieces i) (frames.map .data) now
  | other op _ => op

/-- No stored block has the hash of a piece and other bytes, and no catalogued list of blocks has the file's hash
and other bytes. -/
structure Collisionless (real : Path) (pieces : List (List UInt8)) (s : Stores) : Prop where
  blocks : ∀ h data piece, s.object? real h = some data → piece ∈ pieces →
    Hash.compute data = Hash.compute piece → data = piece
  lists : ∀ blocks : List BlockHash, s.catalog.listChunks (fileOf pieces).hex ≠ [] →
    (s.catalog.listChunks (fileOf pieces).hex).map Catalog.Chunk.blockHash = blocks.map BlockHash.hex →
    Hash.compute (hashBytes blocks) = Hash.compute (hashBytes (pieces.map BlockHash.compute)) →
    hashBytes blocks = hashBytes (pieces.map BlockHash.compute)

theorem Collisionless.of_extends (h : Collisionless real pieces t) (hext : Extends real s t) :
    Collisionless real pieces s where
  blocks g data piece hobject := h.blocks g data piece (hext.objects g data hobject)
  lists blocks hne hrows := by
    have hsame := hext.files _ hne
    exact h.lists blocks (hsame ▸ hne) (hsame ▸ hrows)

/-! ### Rows of a file -/

/-- A row is of a piece of the file, at its place. -/
structure PieceRow (pieces : List (List UInt8)) (k : Catalog.Chunk) : Prop where
  count : k.count = pieces.length
  piece : ∃ i : Fin pieces.length, k.index = i.val ∧ k.blockHash = (BlockHash.compute pieces[i]).hex

theorem PieceRow.blockHash_eq {k : Catalog.Chunk} (h : PieceRow pieces k) {i : Fin pieces.length}
    (hindex : k.index = i.val) : k.blockHash = (BlockHash.compute pieces[i]).hex := by
  obtain ⟨j, hj, hhash⟩ := h.piece
  have hij : j = i := Fin.ext (by omega)
  rw [hhash, hij]

theorem pieceRow_chunkOf (user : String) (i : Fin pieces.length) (now : DateTime) :
    PieceRow pieces (chunkOf (pieceRequest user pieces i) now) := ⟨rfl, i, rfl, rfl⟩

theorem map_blockHash_eq {rows : List Catalog.Chunk} (hrows : ∀ k ∈ rows, PieceRow pieces k)
    (hindexes : rows.map Catalog.Chunk.index = (List.range pieces.length).map Int.ofNat) :
    rows.map Catalog.Chunk.blockHash = hexes pieces := by
  have hlength : rows.length = pieces.length := by simpa using congrArg List.length hindexes
  apply List.ext_getElem (by simp [hexes, hlength])
  intro m hm _
  have hlt : m < rows.length := by simpa using hm
  have hindex := Catalog.index_getElem hindexes hlt
  rw [List.getElem_map, (hrows _ (List.getElem_mem hlt)).blockHash_eq (i := ⟨m, hlength ▸ hlt⟩) hindex]
  simp [hexes]

theorem length_of_hexes {rows : List Catalog.Chunk} (hrows : rows.map Catalog.Chunk.blockHash = hexes pieces) :
    rows.length = pieces.length := by
  simpa [hexes] using congrArg List.length hrows

theorem blockHash_getElem {rows : List Catalog.Chunk} {m : Nat}
    (hrows : rows.map Catalog.Chunk.blockHash = hexes pieces) (hm : m < rows.length) (hlt : m < pieces.length) :
    rows[m].blockHash = (BlockHash.compute pieces[m]).hex := by
  have hat := congrArg (fun l => l[m]?) hrows
  simpa [hexes, hm, hlt] using hat

theorem fileSound_of_hexes {fileHash : String} {n : Nat} (hfile : Catalog.FileSound c fileHash n)
    (hrows : (c.listChunks fileHash).map Catalog.Chunk.blockHash = hexes pieces) :
    Catalog.FileSound c fileHash pieces.length := by
  have hn : n = pieces.length := hfile.length_eq.symm.trans (length_of_hexes hrows)
  exact hn ▸ hfile

theorem pieceRow_of_catalogued (hfile : Catalog.FileSound c (fileOf pieces).hex pieces.length)
    (hrows : (c.listChunks (fileOf pieces).hex).map Catalog.Chunk.blockHash = hexes pieces) {k : Catalog.Chunk}
    (hk : k ∈ c.listChunks (fileOf pieces).hex) : PieceRow pieces k := by
  obtain ⟨hmem, heq⟩ := Catalog.mem_listChunks.mp hk
  have hcount := hfile.counts k hmem heq
  obtain ⟨m, hm, rfl⟩ := List.getElem_of_mem hk
  have hlt : m < pieces.length := hfile.length_eq ▸ hm
  exact ⟨hcount, ⟨m, hlt⟩, Catalog.index_getElem hfile.indexes hm, blockHash_getElem hrows hm hlt⟩

/-- A file is in a catalog with rows of these pieces and of no others. -/
def CataloguedAs (pieces : List (List UInt8)) (c : Catalog) : Prop :=
  c.listChunks (fileOf pieces).hex ≠ [] →
    (c.listChunks (fileOf pieces).hex).map Catalog.Chunk.blockHash = hexes pieces

theorem Sound.hashed_listChunks (hs : Sound real s) (fileHash : String) :
    ∀ text ∈ (s.catalog.listChunks fileHash).map Catalog.Chunk.blockHash, ∃ hash : BlockHash, text = hash.hex := by
  intro text htext
  obtain ⟨k, hk, rfl⟩ := List.mem_map.mp htext
  obtain ⟨hash, _, hhex, _⟩ := hs.chunks k (Catalog.mem_listChunks.mp hk).1
  exact ⟨hash, hhex⟩

theorem Sound.cataloguedAs (hs : Sound real s) (hfree : Collisionless real pieces s) :
    CataloguedAs pieces s.catalog := by
  intro hne
  obtain ⟨blocks, hblocks⟩ := exists_hashes (hs.hashed_listChunks (fileOf pieces).hex)
  obtain ⟨n, hfile⟩ := hs.content.files _ hne
  have hcomposes := hfile.composes
  rw [hblocks, blocksCompose_hex, beq_iff_eq] at hcomposes
  have hbytes := hfree.lists blocks hne hblocks (congrArg FileHash.hash hcomposes)
  rw [hblocks, hashBytes_injective hbytes, hexes_eq]

/-! ### Registering a piece -/

/-- How far a user has come with a file. -/
structure Progress (user : String) (pieces : List (List UInt8)) (done : Fin pieces.length → Prop) (c : Catalog) :
    Prop where
  rows : ∀ k ∈ c.stagedFor user (fileOf pieces).hex, PieceRow pieces k
  staged : c.listChunks (fileOf pieces).hex = [] → ∀ i, done i →
    ∃ k ∈ c.stagedFor user (fileOf pieces).hex, k.index = i.val

theorem Progress.mono {fewer : Fin pieces.length → Prop} (hp : Progress user pieces done c)
    (hfewer : ∀ i, fewer i → done i) : Progress user pieces fewer c where
  rows := hp.rows
  staged hnil i hi := hp.staged hnil i (hfewer i hi)

theorem Progress.of_catalogued (hstaged : c.stagedFor user (fileOf pieces).hex = [])
    (hne : c.listChunks (fileOf pieces).hex ≠ []) : Progress user pieces done c where
  rows k hk := by
    rw [hstaged] at hk
    cases hk
  staged hnil := absurd hnil hne

theorem confirm_piece (hcontent : Catalog.ContentSound c) (hcat : CataloguedAs pieces c) {known : Catalog.Chunk}
    (hknown : known ∈ c.listChunks (fileOf pieces).hex) (user : String) (i : Fin pieces.length) (now : DateTime) :
    c.confirm known (chunkOf (pieceRequest user pieces i) now) = .ok () := by
  have hne := List.ne_nil_of_mem hknown
  obtain ⟨n, hsound⟩ := hcontent.files _ hne
  have hfile := fileSound_of_hexes hsound (hcat hne)
  have hrow : ∀ k ∈ c.listChunks (fileOf pieces).hex, PieceRow pieces k := fun k =>
    pieceRow_of_catalogued hfile (hcat hne)
  have hindex : (i.val : Int) ∈ (c.listChunks (fileOf pieces).hex).map Catalog.Chunk.index := by
    rw [hfile.indexes]
    exact List.mem_map.mpr ⟨i.val, List.mem_range.mpr i.isLt, rfl⟩
  obtain ⟨k, hk, hki⟩ := List.mem_map.mp hindex
  obtain ⟨row, hfound⟩ :
      ∃ row, (c.listChunks (fileOf pieces).hex).find? (fun k => k.index == (i.val : Int)) = some row :=
    Option.isSome_iff_exists.mp (List.find?_isSome.mpr ⟨k, hk, by simpa using hki⟩)
  have hat : row.index = i.val := by simpa using List.find?_some hfound
  have hhash := (hrow row (List.mem_of_find?_eq_some hfound)).blockHash_eq hat
  exact Catalog.confirm_eq_ok (hrow known hknown).count hfound hhash

theorem Progress.stagedWith (hp : Progress user pieces done c) {k : Catalog.Chunk} (hnew : PieceRow pieces k)
    (hfile : k.fileHash = (fileOf pieces).hex) : ∀ j ∈ c.stagedWith user k, PieceRow pieces j := by
  intro j hj
  rcases Catalog.mem_stagedWith.mp hj with rfl | ⟨hold, _, _⟩
  · exact hnew
  · exact hp.rows j (hfile ▸ hold)

theorem Progress.stage (hp : Progress user pieces done c) {k : Catalog.Chunk} (hnew : PieceRow pieces k)
    (hfile : k.fileHash = (fileOf pieces).hex) {i : Fin pieces.length} (hindex : k.index = i.val) :
    Progress user pieces (fun j => done j ∨ j = i) (c.stage user k) := by
  have hstaged : (c.stage user k).stagedFor user (fileOf pieces).hex = c.stagedWith user k := by
    rw [Catalog.stagedWith, hfile]
  refine ⟨fun j hj => hp.stagedWith hnew hfile j (hstaged ▸ hj), fun hnil j hj => ?_⟩
  rw [hstaged]
  by_cases hji : j = i
  · exact ⟨k, Catalog.mem_stagedWith.mpr (.inl rfl), by rw [hindex, hji]⟩
  · obtain ⟨r, hr, hrj⟩ := hp.staged hnil j (hj.resolve_right hji)
    refine ⟨r, Catalog.mem_stagedWith.mpr (.inr ⟨hfile ▸ hr, ?_, ?_⟩), hrj⟩
    · rw [(hp.rows r hr).count, hnew.count]
    · have hne := Fin.val_ne_of_ne hji
      omega

theorem composes_of_indexes {rows : List Catalog.Chunk} (hrows : ∀ k ∈ rows, PieceRow pieces k)
    (hindexes : rows.map Catalog.Chunk.index = (List.range pieces.length).map Int.ofNat) :
    blocksCompose (fileOf pieces).hex (rows.map Catalog.Chunk.blockHash) := by
  rw [map_blockHash_eq hrows hindexes, hexes_eq, blocksCompose_hex]
  simp [fileOf]

theorem register_piece (hcontent : Catalog.ContentSound c) (hcat : CataloguedAs pieces c) {i : Fin pieces.length}
    (hrecorded : (c.block? (BlockHash.compute pieces[i]).hex).isSome) (hp : Progress user pieces done c)
    (now : DateTime) :
    ∃ outcome next, c.registerChunk user (chunkOf (pieceRequest user pieces i) now) = (.ok outcome, next) ∧
      Progress user pieces (fun j => done j ∨ j = i) next := by
  have hnew := pieceRow_chunkOf user i now
  generalize hk : chunkOf (pieceRequest user pieces i) now = k at hnew
  have hfile : k.fileHash = (fileOf pieces).hex := by rw [← hk]; rfl
  have hindex : k.index = i.val := by rw [← hk]; rfl
  have hhash : k.blockHash = (BlockHash.compute pieces[i]).hex := hnew.blockHash_eq hindex
  have hinside := i.isLt
  have hcount := hnew.count
  have h := Catalog.registered c user k
  generalize c.registerChunk user k = result at h
  cases h with
  | outside position => omega
  | @mismatch known rest _ catalogued differs =>
    rw [hfile] at catalogued
    rw [← hk, confirm_piece hcontent hcat (catalogued ▸ List.mem_cons_self)] at differs
    cases differs
  | @confirmed known rest catalogued _ =>
    refine ⟨_, _, rfl, .of_catalogued ?_ ?_⟩
    · rw [hfile]
      exact Catalog.stagedFor_unstage_self c user _
    · change c.listChunks (fileOf pieces).hex ≠ []
      rw [← hfile, catalogued]
      exact List.cons_ne_nil _ _
  | unrecorded _ absent =>
    rw [hhash] at absent
    rw [absent] at hrecorded
    cases hrecorded
  | staged can _ => exact ⟨_, _, rfl, hp.stage hnew hfile hindex⟩
  | promoted can _ _ =>
    refine ⟨_, _, rfl, .of_catalogued ?_ ?_⟩
    · rw [← hfile]
      exact Catalog.stagedFor_unstage_self c user _
    · have hlist := Catalog.listChunks_withFile user can.uncatalogued
      rw [hfile] at hlist
      rw [hlist]
      exact List.ne_nil_of_mem (Catalog.mem_stagedWith.mpr (.inl rfl))
  | dropped can whole differs =>
    -- What is dropped would be all pieces in their order, and these compose the file.
    have hall := Catalog.stagedTogether user hcontent can
    have hsorted : (c.stagedWith user k).mergeSort Catalog.byIndex = c.stagedWith user k :=
      List.mergeSort_of_pairwise (Catalog.pairwise_stagedFor _ _ _)
    have hindexes := Catalog.indexes_mergeSort hall.inside hall.distinct (by omega)
    rw [hsorted, show k.count.toNat = pieces.length by omega] at hindexes
    rw [hfile, composes_of_indexes (hp.stagedWith hnew hfile) hindexes] at differs
    cases differs

/-! ### Uploading a piece -/

theorem validate_pieceRequest (hsizes : ∀ piece ∈ pieces, piece.length ≤ settings.maxBlockSize) (user : String)
    (i : Fin pieces.length) : (pieceRequest user pieces i).validate settings.maxBlockSize = .ok () :=
  validate_eq_ok i.isLt (hsizes _ (List.getElem_mem i.isLt))

theorem readBody_frames (user : String) {i : Fin pieces.length} {frames : List (List UInt8)}
    (whole : frames.flatten = pieces[i]) :
    readBody (pieceRequest user pieces i) [] (frames.map .data) = .ok pieces[i] := by
  have hdata : [] ++ frames.flatten = pieces[i] := whole
  rw [← hdata]
  exact readBody_data frames (congrArg List.length hdata) (congrArg BlockHash.compute hdata)

theorem Sound.piece_of_block (hs : Sound real s) (hfree : Collisionless real pieces s) {piece : List UInt8}
    (hpiece : piece ∈ pieces) {blockHash : String} {size : Int} (hhash : blockHash = (BlockHash.compute piece).hex)
    (hheld : Held (s.object? real) blockHash size) :
    s.object? real (.compute piece) = some piece ∧ size = recordedSize piece.length := by
  obtain ⟨h, data, hhex, hobject, hsize⟩ := hheld
  have hsame : h = .compute piece := BlockHash.hex_injective (hhex.symm.trans hhash)
  have hdata : data = piece := by
    apply hfree.blocks h data piece hobject hpiece
    exact congrArg BlockHash.hash ((hs.honest h data hobject).trans hsame)
  subst hdata
  exact ⟨hsame ▸ hobject, hsize⟩

/-- **A piece of the file is accepted whatever happened before.** -/
theorem upload_piece (hs : Sound real s) (hsizes : ∀ piece ∈ pieces, piece.length ≤ settings.maxBlockSize)
    (hcan : s.catalog.canUpload user) (hfree : Collisionless real pieces s) (hp : Progress user pieces done s.catalog)
    (i : Fin pieces.length) {frames : List (List UInt8)} (whole : frames.flatten = pieces[i]) (now : DateTime) :
    ∃ outcome next,
      perform (uploadChunk settings (pieceRequest user pieces i) (frames.map .data) now) s = (.ok outcome, next) ∧
      Progress user pieces (fun j => done j ∨ j = i) next.catalog := by
  obtain ⟨c, f, rfl⟩ := hs.exists_files
  have hmem : pieces[i] ∈ pieces := List.getElem_mem _
  have hread := readBody_frames user whole
  have hcat := hs.cataloguedAs hfree
  have h := uploaded hs settings (pieceRequest user pieces i) (frames.map .data) now
  generalize perform (uploadChunk settings (pieceRequest user pieces i) (frames.map .data) now) ⟨c, .files f⟩ =
    result at h
  cases h with
  | invalid refused =>
    rw [validate_pieceRequest hsizes] at refused
    cases refused
  | forbidden refused => exact absurd hcan (by rw [show c.canUpload user = false from refused]; decide)
  | @otherSize row _ _ known size =>
    have hhash : row.blockHash = (pieceRequest user pieces i).blockHash.hex := by simpa using List.find?_some known
    exact absurd (hs.piece_of_block hfree hmem hhash (hs.blocks row (List.mem_of_find?_eq_some known))).2 size
  | rejected _ _ read _ _ =>
    rw [hread] at read
    cases read
  | @linked row _ known _ =>
    obtain ⟨outcome, next, hregister, hnext⟩ :=
      register_piece hs.content hcat (i := i) (Option.isSome_iff_exists.mpr ⟨row, known⟩) hp now
    refine ⟨.duplicateAccepted, ⟨next, .files f⟩, ?_, hnext⟩
    rw [show (pieceRequest user pieces i).uploaderId = user from rfl, hregister]
    rfl
  | @stored data next _ new _ _ _ =>
    have hrecorded :
        ((withBlock c (pieceRequest user pieces i) now).block? (BlockHash.compute pieces[i]).hex).isSome := by
      rw [block?_withBlock new]
      exact if_pos rfl ▸ rfl
    obtain ⟨outcome, later, hregister, hlater⟩ := register_piece (c := withBlock c (pieceRequest user pieces i) now)
      (Catalog.contentSound_recorded hs.content) hcat hrecorded ⟨hp.rows, hp.staged⟩ now
    refine ⟨.uploaded, ⟨later, .files next⟩, ?_, hlater⟩
    rw [show (pieceRequest user pieces i).uploaderId = user from rfl, hregister]
    rfl

theorem Progress.apart (hp : Progress user pieces done s.catalog) (hext : Extends real s t)
    (hapart : Apart user s t) :
    Progress user pieces done t.catalog where
  rows k hk := hp.rows k (hapart.staged _ ▸ hk)
  staged hnil i hi := by
    have hbefore : s.catalog.listChunks (fileOf pieces).hex = [] :=
      Decidable.byContradiction fun hne => hne (hext.files _ hne ▸ hnil)
    rw [hapart.staged]
    exact hp.staged hbefore i hi

/-! ### Uploading a file -/

/-- The stores after turns. -/
def afterTurns (settings : Settings) (turns : List (Turn user pieces)) (s : Stores) : Stores :=
  after settings (turns.map Turn.operation) s

/-- A piece is uploaded in one of the turns. -/
def Turn.Uploads (turns : List (Turn user pieces)) (i : Fin pieces.length) : Prop :=
  ∃ frames whole now, Turn.piece i frames whole now ∈ turns

/-- Every upload of a piece succeeds in its turn. -/
def AllAccepted (settings : Settings) (turns : List (Turn user pieces)) (s : Stores) : Prop :=
  ∀ before i frames whole now rest, turns = before ++ Turn.piece i frames whole now :: rest →
    ∃ outcome, (perform (uploadChunk settings (pieceRequest user pieces i) (frames.map .data) now)
      (afterTurns settings before s)).1 = .ok outcome

theorem AllAccepted.cons {turn : Turn user pieces} {rest : List (Turn user pieces)}
    (hturn : ∀ i frames whole now, turn = .piece i frames whole now → ∃ outcome,
      (perform (uploadChunk settings (pieceRequest user pieces i) (frames.map .data) now) s).1 = .ok outcome)
    (hrest : AllAccepted settings rest (perform (turn.operation.act settings) s).2) :
    AllAccepted settings (turn :: rest) s := by
  intro before i frames whole now behind hsplit
  cases before with
  | nil =>
    obtain ⟨hhead, -⟩ := List.cons.inj hsplit
    exact hturn i frames whole now hhead
  | cons first before =>
    obtain ⟨rfl, htail⟩ := List.cons.inj hsplit
    exact hrest before i frames whole now behind htail

theorem sound_afterTurns (settings : Settings) (turns : List (Turn user pieces)) (hs : Sound real s) :
    Sound real (afterTurns settings turns s) := sound_after settings _ hs

theorem extends_afterTurns (settings : Settings) (turns : List (Turn user pieces)) (hs : Sound real s) :
    Extends real s (afterTurns settings turns s) := extends_after settings _ hs

theorem sameRights_turn (settings : Settings) (turn : Turn user pieces) (hs : Sound real s) :
    Catalog.SameRights user s.catalog (perform (turn.operation.act settings) s).2.catalog := by
  cases turn with
  | piece i frames whole now =>
    rw [Turn.operation, perform_upload]
    exact sameRights_uploadChunk hs settings _ _ now user
  | other op someone => exact (apart_act settings op hs someone).rights

theorem sameRights_afterTurns (settings : Settings) (turns : List (Turn user pieces)) (hs : Sound real s) :
    Catalog.SameRights user s.catalog (afterTurns settings turns s).catalog := by
  induction turns generalizing s with
  | nil => exact .refl user _
  | cons turn rest ih =>
    exact (sameRights_turn settings turn hs).trans (ih (sound_act settings turn.operation hs))

theorem progress_turn (hs : Sound real s) (hsizes : ∀ piece ∈ pieces, piece.length ≤ settings.maxBlockSize)
    (hcan : s.catalog.canUpload user) (hfree : Collisionless real pieces s) (hp : Progress user pieces done s.catalog)
    (turn : Turn user pieces) :
    (∀ i frames whole now, turn = .piece i frames whole now → ∃ outcome,
      (perform (uploadChunk settings (pieceRequest user pieces i) (frames.map .data) now) s).1 = .ok outcome) ∧
      Progress user pieces (fun i => done i ∨ Turn.Uploads [turn] i)
        (perform (turn.operation.act settings) s).2.catalog := by
  cases turn with
  | piece j frames whole now =>
    obtain ⟨outcome, next, hupload, hnext⟩ := upload_piece hs hsizes hcan hfree hp j whole now
    refine ⟨fun i _ _ _ heq => ?_, ?_⟩
    · cases heq
      exact ⟨outcome, by rw [hupload]⟩
    · rw [Turn.operation, perform_upload, hupload]
      refine hnext.mono fun i hi => hi.imp_right ?_
      rintro ⟨_, _, _, hmem⟩
      cases List.mem_singleton.mp hmem
      rfl
  | other op someone =>
    have hnext := hp.apart (extends_act settings op hs) (apart_act settings op hs someone)
    refine ⟨fun i _ _ _ heq => ?_, hnext.mono fun i hi => hi.resolve_right ?_⟩
    · cases heq
    · rintro ⟨_, _, _, hmem⟩
      cases List.mem_singleton.mp hmem

/-- **While a user uploads pieces of a file and others do what they like, every upload succeeds.** -/
theorem uploads_after (hs : Sound real s) (hsizes : ∀ piece ∈ pieces, piece.length ≤ settings.maxBlockSize)
    (hcan : s.catalog.canUpload user) (turns : List (Turn user pieces))
    (hfree : Collisionless real pieces (afterTurns settings turns s)) (hp : Progress user pieces done s.catalog) :
    AllAccepted settings turns s ∧
      Progress user pieces (fun i => done i ∨ Turn.Uploads turns i) (afterTurns settings turns s).catalog := by
  -- On the turns: each adds what it uploads to what is done.
  induction turns generalizing s done with
  | nil =>
    refine ⟨fun before i frames whole now rest hsplit => ?_, hp.mono fun i hi => hi.resolve_right ?_⟩
    · simp at hsplit
    · rintro ⟨_, _, _, hmem⟩
      cases hmem
  | cons turn rest ih =>
    have hnow := hfree.of_extends (extends_afterTurns settings (turn :: rest) hs)
    obtain ⟨haccepted, hprogress⟩ := progress_turn hs hsizes hcan hnow hp turn
    have hcanNext : (perform (turn.operation.act settings) s).2.catalog.canUpload user := by
      rw [(sameRights_turn settings turn hs).canUpload_eq]
      exact hcan
    obtain ⟨hrest, hlast⟩ := ih (sound_act settings turn.operation hs) hcanNext hfree hprogress
    refine ⟨.cons haccepted hrest, hlast.mono fun i hi => ?_⟩
    rcases hi with hdone | ⟨frames, whole, now, hmem⟩
    · exact .inl (.inl hdone)
    · rcases List.mem_cons.mp hmem with heq | hlater
      · exact .inl (.inr ⟨frames, whole, now, List.mem_singleton.mpr heq⟩)
      · exact .inr ⟨frames, whole, now, hlater⟩

/-! ### The file that was uploaded -/

/-- A file is there: its pieces are stored, and catalogued in their order. -/
structure Holds (real : Path) (pieces : List (List UInt8)) (s : Stores) : Prop where
  rows : (s.catalog.listChunks (fileOf pieces).hex).map Catalog.Chunk.blockHash = hexes pieces
  objects : ∀ piece ∈ pieces, s.object? real (.compute piece) = some piece

theorem Holds.listChunks_ne_nil (h : Holds real pieces s) (hne : pieces ≠ []) :
    s.catalog.listChunks (fileOf pieces).hex ≠ [] := by
  intro hnil
  have hrows := h.rows
  rw [hnil] at hrows
  exact hne (List.map_eq_nil_iff.mp hrows.symm)

theorem Holds.extends (h : Holds real pieces s) (hne : pieces ≠ []) (hext : Extends real s t) :
    Holds real pieces t where
  rows := by rw [hext.files _ (h.listChunks_ne_nil hne), h.rows]
  objects piece hpiece := hext.objects _ _ (h.objects piece hpiece)

theorem Progress.catalogued (hp : Progress user pieces done c) (hcontent : Catalog.ContentSound c) (hne : pieces ≠ [])
    (hall : ∀ i, done i) : c.listChunks (fileOf pieces).hex ≠ [] := by
  intro hnil
  -- Otherwise all indexes would be staged, and a staged set is never whole.
  obtain ⟨n, hn⟩ := hcontent.staging user (fileOf pieces).hex
  have hpositive := List.length_pos_iff.mpr hne
  obtain ⟨k, hk, _⟩ := hp.staged hnil ⟨0, hpositive⟩ (hall _)
  have hcount : n = pieces.length := by
    have := hn.counts k hk
    have := (hp.rows k hk).count
    omega
  have hsubset : (List.range pieces.length).map Int.ofNat ⊆
      (c.stagedFor user (fileOf pieces).hex).map Catalog.Chunk.index := by
    intro index hindex
    obtain ⟨m, hm, rfl⟩ := List.mem_map.mp hindex
    obtain ⟨j, hj, hjm⟩ := hp.staged hnil ⟨m, List.mem_range.mp hm⟩ (hall _)
    exact List.mem_map.mpr ⟨j, hj, hjm⟩
  have hdistinct := (Catalog.ascending_range pieces.length).imp fun h => Int.ne_of_lt h
  have hlength := (List.subperm_of_subset hdistinct hsubset).length_le
  have hpartly := hn.partly
  simp only [List.length_map, List.length_range] at hlength
  omega

theorem holds_of_progress (hs : Sound real s) (hfree : Collisionless real pieces s) (hne : pieces ≠ [])
    (hp : Progress user pieces done s.catalog) (hall : ∀ i, done i) : Holds real pieces s := by
  have hcatalogued := hp.catalogued hs.content hne hall
  have hrows := hs.cataloguedAs hfree hcatalogued
  refine ⟨hrows, fun piece hpiece => ?_⟩
  have hmem : (BlockHash.compute piece).hex ∈ hexes pieces := List.mem_map.mpr ⟨piece, hpiece, rfl⟩
  rw [← hrows] at hmem
  obtain ⟨k, hk, hhash⟩ := List.mem_map.mp hmem
  exact (hs.piece_of_block hfree hpiece hhash (hs.chunks k (Catalog.mem_listChunks.mp hk).1)).1

theorem holds_after (hs : Sound real s) (hsizes : ∀ piece ∈ pieces, piece.length ≤ settings.maxBlockSize)
    (hcan : s.catalog.canUpload user) (hnone : s.catalog.stagedFor user (fileOf pieces).hex = [])
    (turns : List (Turn user pieces)) (hfree : Collisionless real pieces (afterTurns settings turns s))
    (hne : pieces ≠ []) (hall : ∀ i, Turn.Uploads turns i) :
    AllAccepted settings turns s ∧ Holds real pieces (afterTurns settings turns s) := by
  have hstart : Progress user pieces (fun _ => False) s.catalog := by
    refine ⟨fun k hk => ?_, fun _ _ h => h.elim⟩
    rw [hnone] at hk
    cases hk
  obtain ⟨haccepted, hprogress⟩ := uploads_after hs hsizes hcan turns hfree hstart
  exact ⟨haccepted, holds_of_progress (sound_afterTurns settings turns hs) hfree hne hprogress fun i => .inr (hall i)⟩

end Depot.Service
