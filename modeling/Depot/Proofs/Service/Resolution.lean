import Depot.Proofs.Service.CrowdContent
import Depot.Proofs.Service.Failures
import Depot.Proofs.Service.Provenance
import Depot.Proofs.Service.State
import Depot.Proofs.Text.ByteOrder

/-!
# Two ways to find a file

A path at a commit is looked up in the state that is answered for the commit, or asked of the catalog when it is
downloaded. On backed stores both find the same (`resolvers_agree`), and what is there is planned with its content
(`downloaded`).
-/

namespace Depot.Service

open Content Time Objects

variable {ι : Type} {settings : Settings} {real : Path} {s : Stores} {user path : String} {projectId : Int}
  {boundary : CommitBoundary} {k : CommitSummary} {r : Catalog.Revision} {f : FileState} {now : DateTime}
  {clock : Clock}

/-! ### Chunks with URLs -/

/-- The block that a row names. -/
def blockOfRow (k : Catalog.Chunk) : BlockHash := (BlockHash.parse k.blockHash).toOption.getD default

theorem map_blockOfRow {rows : List Catalog.Chunk} {blocks : List BlockHash}
    (h : rows.map Catalog.Chunk.blockHash = blocks.map BlockHash.hex) : rows.map blockOfRow = blocks := by
  induction rows generalizing blocks with
  | nil =>
    cases blocks with
    | nil => rfl
    | cons b rest => cases h
  | cons k rows ih =>
    cases blocks with
    | nil => cases h
    | cons b rest =>
      obtain ⟨hhash, hrest⟩ := List.cons.inj h
      rw [List.map_cons, ih hrest, blockOfRow, hhash, BlockHash.parse_hex]
      rfl

/-- The chunk of a row with its URL until a time. -/
def withUrl (url : BlockHash → DateTime → String) (row : Catalog.Chunk) (ends : DateTime) : DownloadChunk × DateTime :=
  (⟨row.index, blockOfRow row, row.blockSize, url (blockOfRow row) ends⟩, ends)

/-- The chunks of a file's rows, each with its URL until the time for its place. -/
def withUrls (url : BlockHash → DateTime → String) (ends : Clock) (rows : List Catalog.Chunk) :
    List (DownloadChunk × DateTime) :=
  rows.zipIdx.map fun (row, i) => withUrl url row (ends i)

section WithUrls

variable (url : BlockHash → DateTime → String) (ends : Clock) (rows : List Catalog.Chunk)

theorem length_withUrls : (withUrls url ends rows).length = rows.length := by simp [withUrls]

theorem ends_withUrls : (withUrls url ends rows).map (·.2) = (List.range rows.length).map ends := by
  apply List.ext_getElem <;> simp [withUrls, withUrl]

theorem indexes_withUrls :
    (withUrls url ends rows).map (·.1.chunkIndex) = rows.map Catalog.Chunk.index := by
  apply List.ext_getElem <;> simp [withUrls, withUrl]

theorem blocks_withUrls : (withUrls url ends rows).map (·.1.blockHash) = rows.map blockOfRow := by
  apply List.ext_getElem <;> simp [withUrls, withUrl]

end WithUrls

/-- What a row of a file is answered as, by the place that it has there. -/
def signRow (o : ObjectStore) (lifetime : Lifetime) (url : BlockHash → DateTime → String) (clock : Clock)
    (row : Catalog.Chunk × Nat) : Except ServiceError (DownloadChunk × DateTime) :=
  ((o.expiry lifetime (clock row.2)).mapError .ofObjects).map (withUrl url row.1)

section SignRow

variable {o : ObjectStore} {lifetime : Lifetime} {url : BlockHash → DateTime → String} {row : Catalog.Chunk × Nat}

theorem signRow_of_expiry {ends : DateTime} (h : o.expiry lifetime (clock row.2) = .ok ends) :
    signRow o lifetime url clock row = .ok (withUrl url row.1 ends) := by
  rw [signRow, h]
  rfl

theorem exists_expiry_of_signRow {chunk : DownloadChunk × DateTime}
    (h : signRow o lifetime url clock row = .ok chunk) : ∃ ends, o.expiry lifetime (clock row.2) = .ok ends := by
  unfold signRow at h
  cases hexpiry : o.expiry lifetime (clock row.2) with
  | ok ends => exact ⟨ends, rfl⟩
  | error e =>
    rw [hexpiry] at h
    cases h

theorem exists_refusal_of_signRow {e : ServiceError} (h : signRow o lifetime url clock row = .error e) :
    ∃ failure, o.expiry lifetime (clock row.2) = .error failure ∧ e = .ofObjects failure := by
  unfold signRow at h
  cases hexpiry : o.expiry lifetime (clock row.2) with
  | ok ends =>
    rw [hexpiry] at h
    cases h
  | error failure =>
    rw [hexpiry] at h
    cases h
    exact ⟨failure, rfl, rfl⟩

end SignRow

theorem signRows (o : ObjectStore) (lifetime : Lifetime) (url : BlockHash → DateTime → String) (clock : Clock)
    (rows : List Catalog.Chunk) :
    (∃ i < rows.length, ∃ e, o.expiry lifetime (clock i) = .error e ∧
      rows.zipIdx.mapM (signRow o lifetime url clock) = .error (.ofObjects e)) ∨
    ∃ ends : Clock, (∀ i < rows.length, o.expiry lifetime (clock i) = .ok (ends i)) ∧
      rows.zipIdx.mapM (signRow o lifetime url clock) = .ok (withUrls url ends rows) := by
  cases hurls : rows.zipIdx.mapM (signRow o lifetime url clock) with
  | error e =>
    obtain ⟨⟨row, i⟩, hrow, hrefused⟩ := exists_of_mapM_eq_error hurls
    obtain ⟨-, hi, -⟩ := List.mem_zipIdx hrow
    obtain ⟨failure, hexpiry, rfl⟩ := exists_refusal_of_signRow hrefused
    exact .inl ⟨i, by omega, failure, hexpiry, rfl⟩
  | ok signed =>
    have hends (i : Nat) (hi : i < rows.length) : ∃ ends, o.expiry lifetime (clock i) = .ok ends := by
      have hrow : (rows[i], i) ∈ rows.zipIdx := by simp [List.mem_zipIdx_iff_getElem?]
      obtain ⟨chunk, hchunk⟩ := exists_of_mapM_eq_ok hurls _ hrow
      have hexpiry := exists_expiry_of_signRow hchunk
      exact hexpiry
    choose! ends hends using hends
    refine .inr ⟨ends, hends, ?_⟩
    rw [← hurls]
    refine mapM_eq_ok fun (row, i) hrow => signRow_of_expiry ?_
    obtain ⟨-, hi, -⟩ := List.mem_zipIdx hrow
    exact hends i (by omega)

theorem perform_presignChunk_eq {url : BlockHash → DateTime → String}
    (hsigned : ∀ (now : DateTime) (h : BlockHash),
      s.objects.answer (.presign h.objectKey (.ofSeconds settings.urlLifetime) now) =
        ((s.objects.expiry (.ofSeconds settings.urlLifetime) now).map fun ends => ⟨url h ends, ends⟩, s.objects))
    {row : Catalog.Chunk × Nat} {b : BlockHash} (hblock : row.1.blockHash = b.hex) :
    perform (presignChunk settings (clock row.2) row.1) s =
      (signRow s.objects (.ofSeconds settings.urlLifetime) url clock row, s) := by
  have hparse : BlockHash.parse row.1.blockHash = .ok b := by rw [hblock, BlockHash.parse_hex]
  have hrow : blockOfRow row.1 = b := by
    rw [blockOfRow, hparse]
    rfl
  have hurl (ends : DateTime) : withUrl url row.1 ends = (⟨row.1.index, b, row.1.blockSize, url b ends⟩, ends) := by
    rw [withUrl, hrow]
  rw [presignChunk, perform_bind_ok (perform_lift_ok hparse s), perform_bind, perform_askObjects, hsigned, signRow,
    funext hurl]
  cases s.objects.expiry (.ofSeconds settings.urlLifetime) (clock row.2) <;> rfl

/-! ### Plans -/

/-- A plan is one of a file: of its commit and path, with as many chunks as the file has, in their order, whose blocks
together have the hash of its content. -/
structure PlanOf (f : FileState) (plan : DownloadPlan) : Prop where
  contentHash : plan.contentHash = f.contentHash
  commitId : plan.commitId = f.commitId
  path : plan.path = f.path
  count : (plan.chunks.length : Int) = f.chunkCount
  indexes : plan.chunks.map DownloadChunk.chunkIndex = (List.range plan.chunks.length).map Int.ofNat
  composes : FileHash.ofBlocks (plan.chunks.map DownloadChunk.blockHash) = plan.contentHash

/-- What a download is answered of a path at which a state has a file, or none: a file is planned until the first of
its URLs ends, unless one of them cannot be signed to be good for so long. -/
inductive Downloaded (s : Stores) (lifetime : Lifetime) (clock : Clock) :
    Option FileState → Except ServiceError DownloadPlan × Stores → Prop where
  | absent (what : String) : Downloaded s lifetime clock none (.error (.contentNotFound what), s)
  | planned {f : FileState} {plan : DownloadPlan} {ends : Clock}
    (signed : ∀ i < plan.chunks.length, s.objects.expiry lifetime (clock i) = .ok (ends i))
    (expires : IsFirstEnd ends plan.chunks.length plan.expiresAt) (plans : PlanOf f plan) :
    Downloaded s lifetime clock (some f) (.ok plan, s)
  | unsigned {f : FileState} {i : Nat} {e : ObjectError} (counted : i < f.chunkCount)
    (refused : s.objects.expiry lifetime (clock i) = .error e) :
    Downloaded s lifetime clock (some f) (.error (.ofObjects e), s)

theorem Downloaded.contentNotFound_iff {lifetime : Lifetime} {found : Option FileState}
    {result : Except ServiceError DownloadPlan × Stores} (h : Downloaded s lifetime clock found result) :
    (∃ what, result.1 = .error (.contentNotFound what)) ↔ found = none := by
  cases h with
  | absent what => exact iff_of_true ⟨what, rfl⟩ rfl
  | planned _ _ plans =>
    refine iff_of_false ?_ nofun
    rintro ⟨what, hwhat⟩
    cases hwhat
  | unsigned _ refused =>
    refine iff_of_false ?_ nofun
    rintro ⟨what, hwhat⟩
    rcases expiry_eq_error refused with ⟨why, rfl⟩ | rfl <;> cases hwhat

theorem Downloaded.exists_plan {lifetime : Lifetime} {result : Except ServiceError DownloadPlan × Stores}
    {pieces : List (List UInt8)} (h : Downloaded s lifetime clock (some f) result)
    (hexpiry : ∀ i < pieces.length, ∃ ends, s.objects.expiry lifetime (clock i) = .ok ends) (hs : Sound real s)
    (hholds : Holds real pieces s) (hne : pieces ≠ []) (hr : r ∈ s.catalog.revisions)
    (hcontent : r.contentHash = (fileOf pieces).hex) (hread : r.fileState = .ok f) :
    ∃ plan, result = (.ok plan, s) ∧ PlanOf f plan ∧ plan.chunks.length = pieces.length := by
  have hcount : f.chunkCount = pieces.length :=
    (reads_of_fileState hread).chunkCount.trans (hholds.chunkCount_eq hs hne hr hcontent)
  cases h with
  | planned _ _ plans => exact ⟨_, rfl, plans, Int.ofNat.inj (plans.count.trans hcount)⟩
  | @unsigned _ i _ counted refused =>
    obtain ⟨ends, hends⟩ := hexpiry i (by omega)
    cases refused.symm.trans hends

section Download

variable (hread : AccessLevel.read ≤ s.catalog.projectAccess user projectId) (hvalid : validatePath path = .ok ())
include hread hvalid

theorem perform_resolveDownload_unknown (hnone : boundaryCommit? s.catalog projectId boundary = none) (clock : Clock) :
    perform (resolveDownload settings user projectId path boundary clock) s =
      (.error (unknownBoundary projectId boundary), s) := by
  have hrefused : perform (resolveBoundary projectId boundary) s =
      (.error (unknownBoundary projectId boundary), s) := by
    rw [perform_resolveBoundary_eq, hnone]
  rw [resolveDownload, perform_bind_ok (perform_requireAccess_ok hread), perform_bind_ok (perform_lift_ok hvalid s),
    perform_bind, hrefused]

theorem downloaded_absent (hfound : boundaryCommit? s.catalog projectId boundary = some k)
    (hfile : s.catalog.fileAt? projectId path k.commitId = none) (lifetime : Lifetime) (clock : Clock) :
    Downloaded s lifetime clock none (perform (resolveDownload settings user projectId path boundary clock) s) := by
  have hask : s.catalog.answer (.fileAt projectId path k.commitId) = (.ok none, s.catalog) :=
    congrArg (fun found => (Except.ok found, s.catalog)) hfile
  rw [resolveDownload, perform_bind_ok (perform_requireAccess_ok hread), perform_bind_ok (perform_lift_ok hvalid s),
    perform_bind_ok (perform_resolveBoundary_some hfound), perform_bind_ok (perform_askCatalog_ok hask)]
  exact .absent _

/-- **A file that is there is planned.** -/
theorem downloaded (hs : Backed real s) (hfound : boundaryCommit? s.catalog projectId boundary = some k)
    (hfile : s.catalog.fileAt? projectId path k.commitId = some r) (hreads : Reads r f) (clock : Clock) :
    Downloaded s (.ofSeconds settings.urlLifetime) clock (some f)
      (perform (resolveDownload settings user projectId path boundary clock) s) := by
  have hr := hs.history.fileAt?_mem hfile
  have hinOrder : InOrder s := ⟨hs.history, hs.content⟩
  obtain ⟨hlength, hcontiguous⟩ := hinOrder.whole hr
  obtain ⟨blocks, hblocks, hcount, hparse, _⟩ := hs.contentStored hr
  obtain ⟨url, hsigned⟩ := exists_url hs.orderly (.ofSeconds settings.urlLifetime)
  have hask : s.catalog.answer (.fileAt projectId path k.commitId) = (.ok (some r), s.catalog) :=
    congrArg (fun found => (Except.ok found, s.catalog)) hfile
  have hwhole : ¬(((s.catalog.listChunks r.contentHash).length : Int) ≠ r.chunkCount ∨
      !isContiguous (s.catalog.listChunks r.contentHash)) := by
    simp [hlength, hcontiguous]
  have hpresign (row : Catalog.Chunk × Nat) (hrow : row ∈ (s.catalog.listChunks r.contentHash).zipIdx) :
      perform (presignChunk settings (clock row.2) row.1) s =
        (signRow s.objects (.ofSeconds settings.urlLifetime) url clock row, s) := by
    have hhash := List.mem_map_of_mem (f := Catalog.Chunk.blockHash) (List.fst_mem_of_mem_zipIdx hrow)
    obtain ⟨b, _, hb⟩ := List.mem_map.mp (hblocks ▸ hhash)
    exact perform_presignChunk_eq hsigned hb.symm
  have hpos : 0 < (s.catalog.listChunks r.contentHash).length :=
    List.length_pos_iff.mpr (Catalog.listChunks_ne_nil_of_completeCount? (hs.history.counted r hr))
  rw [resolveDownload, perform_bind_ok (perform_requireAccess_ok hread), perform_bind_ok (perform_lift_ok hvalid s),
    perform_bind_ok (perform_resolveBoundary_some hfound), perform_bind_ok (perform_askCatalog_ok hask)]
  dsimp only
  rw [perform_bind_ok (perform_askCatalog_ok rfl), if_neg hwhole, perform_bind, perform_mapM_eq hpresign]
  obtain ⟨i, hi, e, hexpiry, hrefused⟩ | ⟨ends, hends, hurls⟩ :=
    signRows s.objects (.ofSeconds settings.urlLifetime) url clock (s.catalog.listChunks r.contentHash)
  · have hcounted : i < f.chunkCount := by
      rw [hreads.chunkCount, ← hlength]
      omega
    rw [hrefused]
    exact .unsigned hcounted hexpiry
  · rw [hurls]
    have htimes := ends_withUrls url ends (s.catalog.listChunks r.contentHash)
    have hindexes := indexes_withUrls url ends (s.catalog.listChunks r.contentHash)
    have hcomposes := blocks_withUrls url ends (s.catalog.listChunks r.contentHash)
    have hcounted : ((withUrls url ends (s.catalog.listChunks r.contentHash)).map (·.1)).length =
        (s.catalog.listChunks r.contentHash).length := (List.length_map _).trans (length_withUrls _ _ _)
    generalize withUrls url ends (s.catalog.listChunks r.contentHash) = signed at htimes hindexes hcomposes hcounted
    obtain ⟨expiresAt, hearliest, hfirst⟩ := exists_firstEnd settings (clock signed.length) ends hpos
    dsimp only
    rw [perform_bind_ok (perform_lift_ok (htimes ▸ hearliest) s), perform_bind_ok (perform_lift_ok hparse s)]
    have hhash := Except.ok.inj (hparse.symm.trans hreads.contentHash)
    refine .planned (hcounted ▸ hends) (hcounted ▸ hfirst)
      ⟨hhash, hreads.commitId.symm, hreads.path.symm, ?_, ?_, ?_⟩
    · simp only [hcounted, hlength, hreads.chunkCount]
    · have hplaces : (s.catalog.listChunks r.contentHash).map Catalog.Chunk.index =
          (List.range (s.catalog.listChunks r.contentHash).length).map Int.ofNat := by
        simpa [isContiguous] using hcontiguous
      rw [hcounted, ← hplaces, List.map_map]
      exact hindexes
    · rw [← map_blockOfRow hblocks, List.map_map]
      exact congrArg FileHash.ofBlocks hcomposes

theorem downloaded_get? (hs : Backed real s) (hfound : boundaryCommit? s.catalog projectId boundary = some k)
    {state : ProjectState} (hlists : Lists s.catalog projectId k state) (clock : Clock) :
    Downloaded s (.ofSeconds settings.urlLifetime) clock (state.get? path)
      (perform (resolveDownload settings user projectId path boundary clock) s) := by
  cases hfile : s.catalog.fileAt? projectId path k.commitId with
  | none =>
    rw [(hlists.get?_eq_none_iff hs.history hs.content).mpr hfile]
    exact downloaded_absent hread hvalid hfound hfile _ clock
  | some r =>
    obtain ⟨f, hf, hreads⟩ := hlists.exists_get? hs.history hs.content hfile
    rw [hf]
    exact downloaded hread hvalid hs hfound hfile (reads_of_fileState hreads) clock

end Download

/-! ### Both ways -/

theorem Lists.ascending_utf8 {c : Catalog} {state : ProjectState} (h : Lists c projectId k state) :
    (state.files.map fun f => Text.utf8 f.path).Pairwise (· < ·) :=
  List.pairwise_map.mpr ((List.pairwise_map.mp h.ascending).imp Text.utf8_lt)

/-- **However the calls of operations are interleaved and whichever of them fail, from an empty catalog beside a store
without blocks, whoever may read a project finds the same at any of its commits both ways: the state lists files in the
strict order of the bytes of their paths; it has a file at a path exactly if the catalog has a row there, and the file
is that of the row; and a download of a valid path reports that content was not found exactly if the state has no file
there, and else plans that file until the first of its URLs ends, unless one of them cannot be signed to be good for so
long. What names no commit is refused alike.** -/
theorem resolvers_agree [DecidableEq ι] (settings : Settings) (ops : ι → Operation) {o : ObjectStore}
    (ho : o.Blank real) {w : Crowd ι (Except ServiceError Unit)}
    (hsteps : Crowd.Steps Faulty (crowdOf settings ops ⟨.empty, o⟩) w) (user : String) (projectId : Int)
    (hread : AccessLevel.read ≤ w.stores.catalog.projectAccess user projectId) :
    let s := w.stores
    let c := s.catalog
    let download (path : String) (boundary : CommitBoundary) (clock : Clock) :=
      perform (resolveDownload settings user projectId path boundary clock) s
    (∀ boundary, boundaryCommit? c projectId boundary = none →
      perform (stateAt user projectId boundary) s = (.error (unknownBoundary projectId boundary), s) ∧
        ∀ path clock, validatePath path = .ok () →
          download path boundary clock = (.error (unknownBoundary projectId boundary), s)) ∧
      ∀ boundary k, boundaryCommit? c projectId boundary = some k →
        ∃ state, perform (stateAt user projectId boundary) s = (.ok state, s) ∧
          (state.files.map fun f => Text.utf8 f.path).Pairwise (· < ·) ∧
          ∀ path,
            (state.get? path = none ↔ c.fileAt? projectId path k.commitId = none) ∧
            (∀ r, c.fileAt? projectId path k.commitId = some r →
              ∃ f, state.get? path = some f ∧ r.fileState = .ok f ∧ f.revisionId = r.revisionId) ∧
            ∀ clock, validatePath path = .ok () →
              ((∃ what, (download path boundary clock).1 = .error (.contentNotFound what)) ↔ state.get? path = none) ∧
                Downloaded s (.ofSeconds settings.urlLifetime) clock (state.get? path)
                  (download path boundary clock) := by
  intro s c download
  have hs : Backed real s := (tended_steps ho hsteps).backed
  refine ⟨fun boundary hnone => ⟨(unknown_of_none hread hnone).state, fun path clock hvalid => ?_⟩,
    fun boundary k hfound => ?_⟩
  · exact perform_resolveDownload_unknown hread hvalid hnone clock
  obtain ⟨state, hlists, hresolved⟩ := exists_resolved hs.history hs.content projectId k
  have hstate : perform (stateAt user projectId boundary) s = (.ok state, s) := by
    rw [stateAt, perform_bind_ok (perform_requireAccess_ok hread)]
    exact hresolved boundary hfound
  refine ⟨state, hstate, hlists.ascending_utf8, fun path =>
    ⟨hlists.get?_eq_none_iff hs.history hs.content, fun r hr => ?_, fun clock hvalid => ?_⟩⟩
  · obtain ⟨f, hf, hreads⟩ := hlists.exists_get? hs.history hs.content hr
    exact ⟨f, hf, hreads, (reads_of_fileState hreads).revisionId⟩
  · have hdownloaded : Downloaded s (.ofSeconds settings.urlLifetime) clock (state.get? path)
        (download path boundary clock) := downloaded_get? hread hvalid hs hfound hlists clock
    exact ⟨hdownloaded.contentNotFound_iff, hdownloaded⟩

/-- A file was committed at two paths and then deleted at one of them. -/
structure Deleted (real : Path) (pieces : List (List UInt8)) (user : String) (projectId : Int) (kept dropped : String)
    (s t : Stores) : Prop where
  sound : Sound real t
  holds : Holds real pieces t
  rights : Catalog.SameRights user s.catalog t.catalog
  first : ∃ row r, CommittedAs t.catalog projectId dropped pieces row r
  last : ∃ row r, t.catalog.latestCommit? projectId = some row ∧
    t.catalog.fileAt? projectId kept row.commitId = some r ∧ r.contentHash = (fileOf pieces).hex ∧
    t.catalog.fileAt? projectId dropped row.commitId = none

theorem Holds.deleted {pieces : List (List UInt8)} (h : Holds real pieces s) (hs : Sound real s) (hne : pieces ≠ [])
    (hwrite : AccessLevel.write ≤ s.catalog.projectAccess user projectId) {kept dropped : String}
    (hkept : validatePath kept = .ok ()) (hdropped : validatePath dropped = .ok ()) (hdistinct : kept ≠ dropped)
    (settings : Settings) (made : DateTime) :
    Deleted real pieces user projectId kept dropped s (after settings
      [.commit ⟨projectId, user, "first", [⟨kept, fileOf pieces, .add⟩, ⟨dropped, fileOf pieces, .add⟩]⟩ made,
        .commit ⟨projectId, user, "second", [⟨dropped, fileOf pieces, .delete⟩]⟩ made] s) := by
  let first : CommitRequest :=
    ⟨projectId, user, "first", [⟨kept, fileOf pieces, .add⟩, ⟨dropped, fileOf pieces, .add⟩]⟩
  let second : CommitRequest := ⟨projectId, user, "second", [⟨dropped, fileOf pieces, .delete⟩]⟩
  obtain ⟨t, _, row, hfirst⟩ := h.commit hs hne first hwrite (by simp [first, hkept, hdropped])
    (by simpa [first] using hdistinct) (by simp [first]) made
  have hstill : AccessLevel.write ≤ t.catalog.projectAccess user projectId := by
    rwa [(hfirst.rights user).projectAccess_eq (hs.history.project_of_access (Nat.le_trans (by decide) hwrite))]
  obtain ⟨u, latest, row', hsecond⟩ := hfirst.holds.commit hfirst.sound hne second hstill (by simp [second, hdropped])
    (by simp [second]) (by simp [second]) made
  obtain rfl : row = latest := Option.some.inj (hfirst.newest.symm.trans hsecond.before)
  have hafter : after settings [.commit first made, .commit second made] s = u := by
    rw [after, after, after, hfirst.act, hsecond.act]
  rw [hafter]
  obtain ⟨r, hr⟩ := hfirst.written ⟨dropped, fileOf pieces, .add⟩ (by simp [first]) (fun hkind => by cases hkind)
  obtain ⟨r', hr'⟩ := hfirst.written ⟨kept, fileOf pieces, .add⟩ (by simp [first]) (fun hkind => by cases hkind)
  have hlater := perform_induction (s := t) (fun _ _ => committedAs_step) (Service.commit second made)
    ⟨hfirst.sound.history, hr⟩
  rw [hsecond.answer] at hlater
  have hkeeps := hsecond.others kept (by simpa [second] using hdistinct)
  exact ⟨hsecond.sound, hsecond.holds, (hfirst.rights user).trans (hsecond.rights user), ⟨row, r, hlater.2⟩,
    row', r', hsecond.newest, hkeeps.trans hr'.file, hr'.content, hsecond.deleted _ (List.mem_singleton_self _) rfl⟩

/-- A file is committed at two paths, one of which begins like the other, and then deleted at that one: it is found
there at the first commit, and at the last one only at the other path. -/
theorem resolvers_agree_deleted :
    let o : ObjectStore := .files ⟨⟨[]⟩, [], ⟨[], ""⟩, [], 0⟩
    let settings : Settings := ⟨2, 60, 1⟩
    let pieces : List (List UInt8) := [[104, 105], [106]]
    let ops : Fin 6 → Operation := [.grantOnTeam "ann" "team" .write .epoch, .createProject "ann" "team" "title" .epoch,
      .upload (pieceRequest "ann" pieces 1) [.data [106]] .epoch,
      .upload (pieceRequest "ann" pieces 0) [.data [104, 105]] .epoch,
      .commit ⟨1, "ann", "first", [⟨"a/b", fileOf pieces, .add⟩, ⟨"a", fileOf pieces, .add⟩]⟩ .epoch,
      .commit ⟨1, "ann", "second", [⟨"a", fileOf pieces, .delete⟩]⟩ .epoch].get
    let w := (crowdOf settings ops ⟨.empty, o⟩).inTurn (List.finRange 6)
    let clock : Clock := fun i => { DateTime.epoch with time := .ofSeconds i 0 }
    let download (path : String) (boundary : CommitBoundary) :=
      perform (resolveDownload settings "ann" 1 path boundary clock) w.stores
    (o.Blank [] ∧ Crowd.Steps Faulty (crowdOf settings ops ⟨.empty, o⟩) w ∧
        AccessLevel.read ≤ w.stores.catalog.projectAccess "ann" 1) ∧
      ∃ commitId state last, perform (stateAt "ann" 1 (.id commitId)) w.stores = (.ok state, w.stores) ∧
        perform (stateAt "ann" 1 .latest) w.stores = (.ok last, w.stores) ∧
        (∃ f plan, state.get? "a" = some f ∧ download "a" (.id commitId) = (.ok plan, w.stores) ∧ PlanOf f plan ∧
          plan.chunks.length = 2) ∧
        (∃ f plan, last.get? "a/b" = some f ∧ download "a/b" .latest = (.ok plan, w.stores) ∧ PlanOf f plan ∧
          plan.chunks.length = 2) ∧
        last.get? "a" = none ∧ ∃ what, (download "a" .latest).1 = .error (.contentNotFound what) := by
  intro o settings pieces ops w clock download
  have hfresh : Fresh ⟨⟨[]⟩, [], ⟨[], ""⟩, [], 0⟩ [] := fresh_root _
  have hblank : o.Blank [] := hfresh
  have hsteps : Crowd.Steps Faulty (crowdOf settings ops ⟨.empty, o⟩) w :=
    Crowd.steps_mono (fun _ _ _ _ => .works) (Crowd.steps_inTurn _ _)
  -- The project, and then the file.
  let s := after settings [.grantOnTeam "ann" "team" .write .epoch, .createProject "ann" "team" "title" .epoch]
    ⟨.empty, o⟩
  let turns : List (Turn "ann" pieces) := [.piece 1 [[106]] rfl .epoch, .piece 0 [[104, 105]] rfl .epoch]
  let uploaded := afterTurns settings turns s
  have hs : Sound [] s := sound_after _ _ (sound_fresh hfresh)
  have hcan : s.catalog.canUpload "ann" := by decide +kernel
  have hapart : HashedApart pieces := by decide +kernel
  have hholds : Holds [] pieces uploaded := by
    refine holds_first hs (comesFrom_nothing hfresh _ (by simp)) (by decide) hcan (fun op someone hop => ?_) hapart
      (by decide) (Fin.forall_fin_two.mpr ⟨?_, ?_⟩)
    · simp [turns] at hop
    · exact ⟨[[104, 105]], rfl, .epoch, by simp [turns]⟩
    · exact ⟨[[106]], rfl, .epoch, by simp [turns]⟩
  have hsound : Sound [] uploaded := sound_afterTurns settings turns hs
  have howner : AccessLevel.owner ≤ uploaded.catalog.projectAccess "ann" 1 := by
    rw [(sameRights_afterTurns settings turns hs).projectAccess_eq (by decide +kernel)]
    decide +kernel
  have hwrite : AccessLevel.write ≤ uploaded.catalog.projectAccess "ann" 1 := Nat.le_trans (by decide) howner
  have hpaths : validatePath "a/b" = .ok () ∧ validatePath "a" = .ok () := by decide +kernel
  have hstores : w.stores = after settings [ops 4, ops 5] uploaded :=
    stores_inTurn (List.nodup_finRange 6) fun _ _ => rfl
  have hleft : Deleted [] pieces "ann" 1 "a/b" "a" uploaded w.stores :=
    hstores ▸ hholds.deleted hsound (by decide) hwrite hpaths.1 hpaths.2 (by decide) settings .epoch
  obtain ⟨row, r, hfirst⟩ := hleft.first
  obtain ⟨row', r', hlatest, hkept, hcontent, hnone⟩ := hleft.last
  have hread : AccessLevel.read ≤ w.stores.catalog.projectAccess "ann" 1 := by
    rw [hleft.rights.projectAccess_eq (hsound.history.project_of_access (Nat.le_trans (by decide) hwrite))]
    exact Nat.le_trans (by decide) hwrite
  have hexpiry : ∀ i < pieces.length, ∃ ends, w.stores.objects.expiry (.ofSeconds 60) (clock i) = .ok ends := by
    have hends : ∀ i < 2, ((clock i).add? (60 : Nat) 0).isSome := by decide +kernel
    intro i hi
    obtain ⟨ends, hadd⟩ := Option.isSome_iff_exists.mp (hends i hi)
    exact ⟨ends, expiry_eq_ok w.stores.objects (by decide) hadd⟩
  have hagree := (resolvers_agree settings ops hblank hsteps "ann" 1 hread).2
  obtain ⟨state, hstate, -, hat⟩ := hagree (.id row.commitId) row hfirst.commit
  obtain ⟨last, hlast, -, hnow⟩ := hagree .latest row' hlatest
  refine ⟨⟨hblank, hsteps, hread⟩, row.commitId, state, last, hstate, hlast, ?_, ?_, ?_⟩
  · obtain ⟨f, hf, hfile, -⟩ := (hat "a").2.1 r hfirst.file
    have hdownload := ((hat "a").2.2 clock hpaths.2).2
    rw [hf] at hdownload
    obtain ⟨plan, hplan⟩ := hdownload.exists_plan hexpiry hleft.sound hleft.holds (by decide)
      (hleft.sound.history.fileAt?_mem hfirst.file) hfirst.content hfile
    exact ⟨f, plan, hf, hplan⟩
  · obtain ⟨f, hf, hfile, -⟩ := (hnow "a/b").2.1 r' hkept
    have hdownload := ((hnow "a/b").2.2 clock hpaths.1).2
    rw [hf] at hdownload
    obtain ⟨plan, hplan⟩ := hdownload.exists_plan hexpiry hleft.sound hleft.holds (by decide)
      (hleft.sound.history.fileAt?_mem hkept) hcontent hfile
    exact ⟨f, plan, hf, hplan⟩
  · have hdeleted : last.get? "a" = none := (hnow "a").1.mpr hnone
    exact ⟨hdeleted, ((hnow "a").2.2 clock hpaths.2).1.mpr hdeleted⟩

end Depot.Service
