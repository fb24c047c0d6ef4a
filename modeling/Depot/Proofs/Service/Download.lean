import Depot.Proofs.Service.Commit
import Depot.Proofs.Service.FileUpload

/-!
# Downloads

- `planOf`: the plan of a file with a chunk for each piece in their order, each with a URL that was signed for its
  block and has an end of its own. Its sizes add up to that of the file.
- A plan expires with the first of its URLs (`exists_earliest`).
- A file that is there is planned so, for whoever may read it (`perform_resolveDownload`).
-/

namespace Depot.Service

open Content Time Objects

variable {settings : Settings} {real : Path} {s : Stores} {c : Catalog} {f : FileStore} {user path : String}
  {pieces : List (List UInt8)} {projectId : Int} {now expiresAt : DateTime} {clock ends : Clock}

/-- The chunk of a piece. -/
def chunkFor (signer : UrlSigner) (expiresAt : DateTime) (i : Nat) (piece : List UInt8) : DownloadChunk where
  chunkIndex := i
  blockHash := .compute piece
  size := piece.length
  url := signer.url (BlockHash.compute piece).objectKey expiresAt.unixSeconds

/-- The plan of a file, by the ends of its URLs. -/
def planOf (signer : UrlSigner) (pieces : List (List UInt8)) (commitId : Int) (path : String) (ends : Clock)
    (expiresAt : DateTime) : DownloadPlan where
  contentHash := fileOf pieces
  commitId
  path
  chunks := pieces.mapIdx fun i => chunkFor signer (ends i) i
  expiresAt

theorem foldl_size (pieces : List (List UInt8)) {chunk : Nat → List UInt8 → DownloadChunk}
    (hsize : ∀ i piece, (chunk i piece).size = piece.length) (total : Int) :
    (pieces.mapIdx chunk).foldl (fun total chunk => total + chunk.size) total = total + pieces.flatten.length := by
  induction pieces generalizing chunk total with
  | nil => simp
  | cons piece rest ih =>
    rw [List.mapIdx_cons, List.foldl_cons, ih fun i piece => hsize (i + 1) piece, hsize, List.flatten_cons,
      List.length_append]
    omega

theorem totalSize_planOf (signer : UrlSigner) (pieces : List (List UInt8)) (commitId : Int) (path : String)
    (ends : Clock) (expiresAt : DateTime) :
    (planOf signer pieces commitId path ends expiresAt).totalSize = (pieces.flatten.length : Int) := by
  rw [DownloadPlan.totalSize, planOf, foldl_size pieces (fun _ _ => rfl), Int.zero_add]

/-! ### The rows of a file -/

theorem recordedSize_eq {size : Nat} (h : size ≤ Int64.maxValue.toInt) : recordedSize size = size := by
  have hmax : Int64.maxValue.toInt = 9223372036854775807 := by decide
  unfold recordedSize
  refine Int.bmod_eq_of_le_mul_two ?_ ?_
  · omega
  · simp only [UInt64.size]
    omega

/-- The chunk that a row is answered as. -/
def chunkOfRow (signer : UrlSigner) (expiresAt : DateTime) (k : Catalog.Chunk) : DownloadChunk :=
  let blockHash := (BlockHash.parse k.blockHash).toOption.getD default
  ⟨k.index, blockHash, k.blockSize, signer.url blockHash.objectKey expiresAt.unixSeconds⟩

/-- What a row of a file says. -/
structure RowAt (pieces : List (List UInt8)) (k : Catalog.Chunk) (i : Fin pieces.length) : Prop where
  index : k.index = i.val
  blockHash : k.blockHash = (BlockHash.compute (pieces.get i)).hex
  size : k.blockSize = recordedSize (pieces.get i).length

theorem Holds.length_eq (h : Holds real pieces s) :
    (s.catalog.listChunks (fileOf pieces).hex).length = pieces.length := length_of_hexes h.rows

theorem Holds.fileSound (h : Holds real pieces s) (hs : Sound real s) (hne : pieces ≠ []) :
    Catalog.FileSound s.catalog (fileOf pieces).hex pieces.length := by
  obtain ⟨n, hfile⟩ := hs.content.files _ (h.listChunks_ne_nil hne)
  exact fileSound_of_hexes hfile h.rows

theorem Holds.rowAt (h : Holds real pieces s) (hs : Sound real s) {i : Nat}
    (hi : i < (s.catalog.listChunks (fileOf pieces).hex).length) :
    RowAt pieces (s.catalog.listChunks (fileOf pieces).hex)[i] ⟨i, h.length_eq ▸ hi⟩ := by
  have hlt : i < pieces.length := h.length_eq ▸ hi
  have hmem := List.getElem_mem hi
  have hindexes := (h.fileSound hs (List.ne_nil_of_length_pos (by omega))).indexes
  have hhash := blockHash_getElem h.rows hi hlt
  refine ⟨Catalog.index_getElem hindexes hi, hhash, ?_⟩
  obtain ⟨g, data, hhex, hobject, hsize⟩ := hs.chunks _ (Catalog.mem_listChunks.mp hmem).1
  have hg : g = .compute pieces[i] := BlockHash.hex_injective (hhex.symm.trans hhash)
  rw [hg, h.objects _ (List.getElem_mem hlt)] at hobject
  rw [hsize, ← Option.some.inj hobject]
  rfl

theorem Holds.mapIdx_chunkOfRow (h : Holds real pieces s) (hs : Sound real s)
    (hsizes : ∀ piece ∈ pieces, piece.length ≤ Int64.maxValue.toInt) (signer : UrlSigner) (ends : Clock) :
    (s.catalog.listChunks (fileOf pieces).hex).mapIdx (fun i => chunkOfRow signer (ends i)) =
      pieces.mapIdx fun i => chunkFor signer (ends i) i := by
  apply List.ext_getElem (by simp [h.length_eq])
  intro i hi hlt
  rw [List.length_mapIdx] at hi
  have hrow := h.rowAt hs hi
  have hpiece : i < pieces.length := h.length_eq ▸ hi
  have hsize := hrow.size.trans (recordedSize_eq (hsizes _ (List.getElem_mem hpiece)))
  rw [List.getElem_mapIdx, List.getElem_mapIdx, chunkOfRow, hrow.blockHash, BlockHash.parse_hex, hrow.index, hsize]
  rfl

/-! ### Its commit -/

/-- A commit has a file at a path. -/
structure CommittedAs (c : Catalog) (projectId : Int) (path : String) (pieces : List (List UInt8))
    (row : CommitSummary) (r : Catalog.Revision) : Prop where
  commit : c.commit? projectId row.commitId = some row
  file : c.fileAt? projectId path row.commitId = some r
  content : r.contentHash = (fileOf pieces).hex

theorem Holds.missingContent_eq_nil (h : Holds real pieces s) (hs : Sound real s) (hne : pieces ≠ [])
    {request : CommitRequest} (hchanges : ∀ change ∈ request.changes, change.contentHash = fileOf pieces) :
    missingContent s.catalog request = [] := by
  apply List.eq_nil_iff_forall_not_mem.mpr
  intro g hg
  obtain ⟨hnamed, hincomplete⟩ := mem_missingContent.mp hg
  obtain ⟨change, hchange, rfl⟩ := List.mem_map.mp hnamed
  rw [hchanges change hchange] at hincomplete
  exact hincomplete ((Catalog.isFileComplete_iff hs.content).mpr (h.listChunks_ne_nil hne))

/-- What a commit of a file does that is there: it makes one commit, where each changed path has the file or is deleted,
and all others have what they had. -/
structure FileCommitted (real : Path) (pieces : List (List UInt8)) (request : CommitRequest) (made : DateTime)
    (s t : Stores) (latest row : CommitSummary) : Prop where
  before : s.catalog.latestCommit? request.projectId = some latest
  answer : perform (commit request made) s = (.ok (.committed row.commitId row.sequenceNumber), t)
  sound : Sound real t
  holds : Holds real pieces t
  reaches : Extends real s t
  rights : ∀ user, Catalog.SameRights user s.catalog t.catalog
  newest : t.catalog.latestCommit? request.projectId = some row
  written : ∀ change ∈ request.changes, change.kind ≠ .delete →
    ∃ r, CommittedAs t.catalog request.projectId change.path pieces row r
  deleted : ∀ change ∈ request.changes, change.kind = .delete →
    t.catalog.fileAt? request.projectId change.path row.commitId = none
  others : ∀ path, path ∉ request.changes.map ProposedChange.path →
    t.catalog.fileAt? request.projectId path row.commitId = s.catalog.fileAt? request.projectId path latest.commitId

theorem Holds.commit (h : Holds real pieces s) (hs : Sound real s) (hne : pieces ≠ []) (request : CommitRequest)
    (hwrite : AccessLevel.write ≤ s.catalog.projectAccess request.authorId request.projectId)
    (hvalid : ∀ change ∈ request.changes, validatePath change.path = .ok ())
    (hdistinct : (request.changes.map ProposedChange.path).Nodup)
    (hchanges : ∀ change ∈ request.changes, change.contentHash = fileOf pieces) (made : DateTime) :
    ∃ t latest row, FileCommitted real pieces request made s t latest row := by
  obtain ⟨latest, row, rows, hlatest, hcommit, hof⟩ : Commits s request made :=
    commit_of_complete hs.history hwrite hvalid hdistinct (h.missingContent_eq_nil hs hne hchanges)
  have hact : (perform ((Operation.commit request made).act ⟨0, 0, 0⟩) s).2 =
      { s with catalog := s.catalog.withCommit row rows } := by
    rw [Operation.act, perform_discard, hcommit]
  have hsound := hact ▸ sound_act ⟨0, 0, 0⟩ (.commit request made) hs
  have hreaches := hact ▸ extends_act ⟨0, 0, 0⟩ (.commit request made) hs
  have hnext : Catalog.HistorySound (s.catalog.withCommit row rows) := hsound.history
  refine ⟨_, latest, row, hlatest, hcommit, hsound, h.extends hne hreaches, hreaches,
    fun _ => ⟨rfl, rfl, fun _ _ h => h⟩, hof.newest, fun change hchange hkind => ?_,
    fun change hchange => (hof.fileAt?_of_mem hnext hdistinct hchange).1, fun path => hof.fileAt?_of_not_mem hnext hs.history⟩
  obtain ⟨r, hfile, hcontent⟩ := (hof.fileAt?_of_mem hnext hdistinct hchange).2 hkind
  rw [hchanges change hchange] at hcontent
  exact ⟨r, hof.added.1 ▸ Catalog.commit?_withCommit_self hof.added.2, hfile, hcontent⟩

theorem FileCommitted.act {request : CommitRequest} {made : DateTime} {latest row : CommitSummary}
    (h : FileCommitted real pieces request made s t latest row) (settings : Settings) :
    (perform ((Operation.commit request made).act settings) s).2 = t := by
  rw [Operation.act, perform_discard, h.answer]

theorem committedAs_step {c next : Catalog} {row : CommitSummary} {r : Catalog.Revision} (hstep : Catalog.Step c next)
    (h : Catalog.HistorySound c ∧ CommittedAs c projectId path pieces row r) :
    Catalog.HistorySound next ∧ CommittedAs next projectId path pieces row r := by
  obtain ⟨hsound, hcommitted⟩ := h
  refine ⟨Catalog.historySound_step hstep hsound, Catalog.commit?_step hstep hsound hcommitted.commit, ?_,
    hcommitted.content⟩
  rw [Catalog.fileAt?_step hstep hsound hcommitted.commit, hcommitted.file]

/-! ### The plan -/

theorem perform_presignChunk (hs : Sound real ⟨c, .files f⟩)
    (hexpiry : UrlSigner.expiry (.ofSeconds settings.urlLifetime) now = .ok expiresAt) {k : Catalog.Chunk}
    {h : BlockHash} (hhash : k.blockHash = h.hex) :
    perform (presignChunk settings now k) ⟨c, .files f⟩ =
      (.ok (chunkOfRow f.signer expiresAt k, expiresAt), ⟨c, .files f⟩) := by
  have hparse : BlockHash.parse k.blockHash = .ok h := by rw [hhash, BlockHash.parse_hex]
  have hsign : f.presign h.objectKey (.ofSeconds settings.urlLifetime) now =
      .ok ⟨f.signer.url h.objectKey expiresAt.unixSeconds, expiresAt⟩ := by
    rw [hs.blockFiles.1.presign_eq, UrlSigner.sign, hexpiry]
    rfl
  have hask : perform (askObjects (.presign h.objectKey (.ofSeconds settings.urlLifetime) now)) ⟨c, .files f⟩ =
      (.ok ⟨f.signer.url h.objectKey expiresAt.unixSeconds, expiresAt⟩, ⟨c, .files f⟩) :=
    perform_askFiles (by rw [answer_presign, hsign])
  rw [presignChunk, perform_bind_ok (perform_lift_ok hparse _), perform_bind_ok hask, chunkOfRow, hparse]
  rfl

theorem Holds.perform_presign (h : Holds real pieces ⟨c, .files f⟩) (hs : Sound real ⟨c, .files f⟩)
    (hsizes : ∀ piece ∈ pieces, piece.length ≤ Int64.maxValue.toInt)
    (hexpiry : ∀ i < pieces.length, UrlSigner.expiry (.ofSeconds settings.urlLifetime) (clock i) = .ok (ends i)) :
    ∃ signed, perform ((c.listChunks (fileOf pieces).hex).zipIdx.mapM fun (k, i) => presignChunk settings (clock i) k)
        ⟨c, .files f⟩ = (.ok signed, ⟨c, .files f⟩) ∧
      signed.map (·.1) = (pieces.mapIdx fun i => chunkFor f.signer (ends i) i) ∧
      signed.map (·.2) = (List.range pieces.length).map ends := by
  have hlength : (c.listChunks (fileOf pieces).hex).length = pieces.length := h.length_eq
  refine ⟨_, perform_mapM (g := fun (k, i) => (chunkOfRow f.signer (ends i) k, ends i)) fun (k, i) hk => ?_, ?_, ?_⟩
  · obtain ⟨-, hi, -⟩ := List.mem_zipIdx hk
    obtain ⟨g, hg⟩ := hs.hashed_listChunks _ _ (List.mem_map_of_mem (List.fst_mem_of_mem_zipIdx hk))
    exact perform_presignChunk hs (hexpiry i (by omega)) hg
  · rw [← h.mapIdx_chunkOfRow hs hsizes f.signer ends, List.mapIdx_eq_zipIdx_map, List.map_map]
    rfl
  · rw [← hlength, List.map_map]
    apply List.ext_getElem <;> simp

theorem foldl_earlier (first : DateTime) (rest : List DateTime) :
    rest.foldl (fun a b => if b.instant < a.instant then b else a) first ∈ first :: rest ∧
      ∀ t ∈ first :: rest,
        (rest.foldl (fun a b => if b.instant < a.instant then b else a) first).instant ≤ t.instant := by
  induction rest generalizing first with
  | nil => simp
  | cons second rest ih =>
    rw [List.foldl_cons]
    by_cases hearlier : second.instant < first.instant
    · rw [if_pos hearlier]
      obtain ⟨hmem, hle⟩ := ih second
      refine ⟨List.mem_cons_of_mem _ hmem, List.forall_mem_cons.mpr ⟨?_, hle⟩⟩
      exact Int.le_trans (hle second List.mem_cons_self) (Int.le_of_lt hearlier)
    · rw [if_neg hearlier]
      obtain ⟨hmem, hle⟩ := ih first
      obtain ⟨hfirst, hrest⟩ := List.forall_mem_cons.mp hle
      refine ⟨?_, List.forall_mem_cons.mpr ⟨hfirst, List.forall_mem_cons.mpr ⟨?_, hrest⟩⟩⟩
      · rcases List.mem_cons.mp hmem with heq | hlater
        · exact List.mem_cons.mpr (.inl heq)
        · exact List.mem_cons_of_mem _ (List.mem_cons_of_mem _ hlater)
      · exact Int.le_trans hfirst (Int.not_lt.mp hearlier)

theorem exists_earliest (settings : Settings) (now : DateTime) {times : List DateTime} (hne : times ≠ []) :
    ∃ t ∈ times, earliest settings now times = .ok t ∧ ∀ u ∈ times, t.instant ≤ u.instant := by
  cases times with
  | nil => exact absurd rfl hne
  | cons first rest =>
    obtain ⟨hmem, hle⟩ := foldl_earlier first rest
    exact ⟨_, hmem, rfl, hle⟩

/-- A time is the first of those that a plan of so many chunks has URLs until. -/
structure IsFirstEnd (ends : Clock) (count : Nat) (expiresAt : DateTime) : Prop where
  attained : ∃ i < count, ends i = expiresAt
  first : ∀ i < count, expiresAt.instant ≤ (ends i).instant

theorem exists_firstEnd (settings : Settings) (now : DateTime) (ends : Clock) {count : Nat} (hpos : 0 < count) :
    ∃ t, earliest settings now ((List.range count).map ends) = .ok t ∧ IsFirstEnd ends count t := by
  have hne : (List.range count).map ends ≠ [] := by simpa using Nat.pos_iff_ne_zero.mp hpos
  obtain ⟨t, hmem, ht, hle⟩ := exists_earliest settings now hne
  obtain ⟨i, hi, rfl⟩ := List.mem_map.mp hmem
  exact ⟨_, ht, ⟨i, List.mem_range.mp hi, rfl⟩, fun j hj => hle _ (List.mem_map_of_mem (List.mem_range.mpr hj))⟩

theorem perform_resolveBoundary_id {commitId : Int} {k : CommitSummary}
    (hcommit : s.catalog.commit? projectId commitId = some k) :
    perform (resolveBoundary projectId (.id commitId)) s = (.ok k, s) := by
  have hanswer : s.catalog.answer (.getCommit projectId commitId) = (.ok (some k), s.catalog) := by
    rw [Catalog.answer, hcommit]
  rw [resolveBoundary, perform_bind_ok (perform_askCatalog_ok hanswer)]
  rfl

theorem Holds.chunkCount_eq (h : Holds real pieces s) (hs : Sound real s) (hne : pieces ≠ []) {r : Catalog.Revision}
    (hr : r ∈ s.catalog.revisions) (hcontent : r.contentHash = (fileOf pieces).hex) :
    r.chunkCount = pieces.length := by
  have hcounted := hs.history.counted r hr
  rw [hcontent, (h.fileSound hs hne).completeCount?_eq] at hcounted
  exact (Option.some.inj hcounted).symm

theorem Holds.isContiguous (h : Holds real pieces s) (hs : Sound real s) (hne : pieces ≠ []) :
    Service.isContiguous (s.catalog.listChunks (fileOf pieces).hex) := by
  simp [Service.isContiguous, (h.fileSound hs hne).indexes, h.length_eq]

/-- **A file that is there is planned piece by piece.** -/
theorem perform_resolveDownload (hs : Sound real ⟨c, .files f⟩) (h : Holds real pieces ⟨c, .files f⟩)
    (hne : pieces ≠ []) (hsizes : ∀ piece ∈ pieces, piece.length ≤ Int64.maxValue.toInt)
    (hread : AccessLevel.read ≤ c.projectAccess user projectId) (hpath : validatePath path = .ok ())
    {k : CommitSummary} {r : Catalog.Revision} (hcommit : c.commit? projectId k.commitId = some k)
    (hfile : c.fileAt? projectId path k.commitId = some r) (hcontent : r.contentHash = (fileOf pieces).hex)
    (hexpiry : ∀ i < pieces.length, UrlSigner.expiry (.ofSeconds settings.urlLifetime) (clock i) = .ok (ends i)) :
    ∃ expiresAt, IsFirstEnd ends pieces.length expiresAt ∧
      perform (resolveDownload settings user projectId path (.id k.commitId) clock) ⟨c, .files f⟩ =
        (.ok (planOf f.signer pieces r.commitId r.path ends expiresAt), ⟨c, .files f⟩) := by
  have haccess : perform (requireAccess user projectId .read) ⟨c, .files f⟩ = (.ok (), ⟨c, .files f⟩) :=
    perform_requireAccess_ok hread
  have hrevision : c.answer (.fileAt projectId path k.commitId) = (.ok (some r), c) := by
    rw [Catalog.answer, hfile]
  have hchunks : c.answer (.listChunks r.contentHash) = (.ok (c.listChunks (fileOf pieces).hex), c) := by
    rw [hcontent]
    rfl
  have hwhole : ¬(((c.listChunks (fileOf pieces).hex).length : Int) ≠ r.chunkCount ∨
      !isContiguous (c.listChunks (fileOf pieces).hex)) := by
    have hlength : (c.listChunks (fileOf pieces).hex).length = pieces.length := h.length_eq
    have hcount := h.chunkCount_eq hs hne (hs.history.fileAt?_mem hfile) hcontent
    have hcontiguous : isContiguous (c.listChunks (fileOf pieces).hex) := h.isContiguous hs hne
    simp [hlength, hcount, hcontiguous]
  obtain ⟨signed, hsigned, hplanned, htimes⟩ := h.perform_presign hs hsizes hexpiry
  obtain ⟨expiresAt, hearliest, hfirst⟩ :=
    exists_firstEnd settings (clock signed.length) ends (List.length_pos_iff.mpr hne)
  have hparse : FileHash.parse r.contentHash = .ok (fileOf pieces) := by rw [hcontent, FileHash.parse_hex]
  refine ⟨expiresAt, hfirst, ?_⟩
  rw [resolveDownload, perform_bind_ok haccess, perform_bind_ok (perform_lift_ok hpath _),
    perform_bind_ok (perform_resolveBoundary_id hcommit), perform_bind_ok (perform_askCatalog_ok hrevision)]
  dsimp only
  rw [perform_bind_ok (perform_askCatalog_ok hchunks), if_neg hwhole, perform_bind_ok hsigned,
    perform_bind_ok (perform_lift_ok (htimes ▸ hearliest) _), perform_bind_ok (perform_lift_ok hparse _), perform_pure,
    hplanned]
  rfl

end Depot.Service
