import Depot.Proofs.Service.Ends
import Depot.Proofs.Service.Download

/-!
# How each operation may fail

- On a catalog in order, operations that read and operations that make projects and commits fail only by refusals.
- So do uploads to sound stores, since an upload can do no more than `Uploaded` says.
- A download of a file that is there (`Live`) is planned with all chunks of the file (`Plans`), unless the end of its
  URLs is on no day of the calendar; any other download is refused.
- `ends_act`: all operations together.
-/

namespace Depot.Service

open Content Time Objects

variable {s : Stores} {c : Catalog} {f : FileStore} {real : Path} {settings : Settings} {user : String}
  {projectId : Int} {now : DateTime}

theorem Sound.inOrder (hs : Sound real s) : InOrder s := ⟨hs.history, hs.content⟩

/-! ### Projects and the log -/

theorem ends_createProject (hs : InOrder s) (creator teamId title : String) (now : DateTime) :
    Ends ServiceError.IsPlain s (createProject creator teamId title now) fun _ _ => True := by
  unfold createProject
  refine ends_check trivial fun _ => ends_check trivial fun _ => ends_query rfl (ends_check trivial fun _ => ?_)
  refine (ends_askCatalog hs ?_).any
  exact nofun

theorem ends_getProject (user : String) (projectId : Int) (s : Stores) :
    Ends ServiceError.IsPlain s (getProject user projectId) fun _ _ => True := by
  apply (ends_requireAccess user projectId .read s).bind
  rintro _ _ ⟨rfl, _⟩
  apply ends_query rfl
  split
  · exact ends_pure trivial
  · exact ends_throw trivial

theorem ends_history (settings : Settings) (user : String) (projectId offset : Int) (s : Stores) :
    Ends ServiceError.IsPlain s (history settings user projectId offset) fun _ _ => True := by
  unfold history
  refine ends_check trivial fun _ => (ends_requireAccess user projectId .read s).bind ?_
  rintro _ _ ⟨rfl, _⟩
  exact ends_query rfl (ends_query rfl (ends_pure trivial))

theorem ends_commitDetail (hs : InOrder s) (user : String) (projectId commitId : Int) :
    Ends ServiceError.IsPlain s (commitDetail user projectId commitId) fun _ _ => True := by
  apply (ends_requireAccess user projectId .read s).bind
  rintro _ _ ⟨rfl, _⟩
  apply ends_query rfl
  split
  · exact ends_throw trivial
  · apply ends_query rfl
    apply (ends_filesOf hs fun r hr => (List.mem_filter.mp hr).1).bind
    rintro files _ rfl
    exact ends_pure trivial

theorem ends_resolveSequence (user : String) (projectId number : Int) (s : Stores) :
    Ends ServiceError.IsPlain s (resolveSequence user projectId number) fun _ _ => True := by
  apply (ends_requireAccess user projectId .read s).bind
  rintro _ _ ⟨rfl, _⟩
  exact (ends_resolveBoundary projectId _ _).bind fun _ _ _ => ends_pure trivial

/-! ### Snapshots -/

theorem ends_resolveState (hs : InOrder s) (projectId : Int) (boundary : CommitBoundary) :
    Ends ServiceError.IsPlain s (resolveState projectId boundary) fun _ t => s = t := by
  apply (ends_resolveBoundary projectId boundary s).bind
  rintro k _ ⟨rfl, _⟩
  apply ends_query rfl
  apply (ends_filesOf hs fun r hr => Catalog.mem_stateAt_revisions hr).bind
  rintro files _ rfl
  exact ends_pure rfl

theorem ends_stateAt (hs : InOrder s) (user : String) (projectId : Int) (boundary : CommitBoundary) :
    Ends ServiceError.IsPlain s (stateAt user projectId boundary) fun _ _ => True := by
  apply (ends_requireAccess user projectId .read s).bind
  rintro _ _ ⟨rfl, _⟩
  exact (ends_resolveState hs projectId boundary).any

theorem ends_diff (hs : InOrder s) (user : String) (projectId : Int) (old new : CommitBoundary) :
    Ends ServiceError.IsPlain s (diff user projectId old new) fun _ _ => True := by
  apply (ends_requireAccess user projectId .read s).bind
  rintro _ _ ⟨rfl, _⟩
  apply (ends_resolveState hs projectId old).bind
  rintro before _ rfl
  apply (ends_resolveState hs projectId new).bind
  rintro after _ rfl
  exact ends_pure trivial

theorem ends_restore (hs : InOrder s) (user : String) (projectId commitId : Int) (clock : Clock) :
    Ends ServiceError.IsPlain s (restore user projectId commitId clock) fun _ _ => True := by
  apply (ends_requireAccess user projectId .manage s).bind
  rintro _ _ ⟨rfl, _⟩
  apply (ends_resolveBoundary projectId (.id commitId) _).bind
  rintro target _ ⟨rfl, _⟩
  refine (ends_persist hs ?_ _ _).bind fun _ _ _ => ends_pure trivial
  exact fun _ => nofun

/-! ### Commits -/

theorem isPlain_validateChanges {seen : List String} {changes : List ProposedChange} {e : ServiceError}
    (h : validateChanges seen changes = .error e) : e.IsPlain := by
  induction changes generalizing seen with
  | nil => cases h
  | cons change rest ih =>
    unfold validateChanges at h
    split at h
    · cases h
      exact isPlain_ofContent _
    · split at h
      · cases h
        exact trivial
      · exact ih h

theorem missingContent_of_answer {request : CommitRequest} {hashes : List String}
    (h : (c.answer (.createCommit (draftOf request now))).1 = .ok (.missingContent hashes)) :
    hashes = (missingContent c request).map FileHash.hex := by
  cases hproject : c.project? (draftOf request now).projectId with
  | none =>
    have hrefused : ∃ e, c.createCommit (draftOf request now) = .error e := by
      obtain ⟨e, he⟩ := Catalog.insertCommit_error (draftOf request now).authorId (draftOf request now).comment
        (draftOf request now).revisions.length (draftOf request now).createdAt hproject
      exact ⟨e, by rw [Catalog.createCommit, he, error_bind]⟩
    obtain ⟨e, he⟩ := hrefused
    rw [Catalog.answer, he] at h
    cases h
  | some project =>
    rw [Catalog.answer, Catalog.createCommit_eq c _ (by simp [hproject]), missingFiles_draftOf] at h
    cases hmissing : (missingContent c request).map FileHash.hex with
    | nil =>
      rw [hmissing] at h
      cases h
    | cons first rest =>
      rw [hmissing] at h
      cases h
      rfl

theorem ends_commit (hs : InOrder s) (request : CommitRequest) (now : DateTime) :
    Ends ServiceError.IsPlain s (commit request now) fun _ _ => True := by
  apply (ends_requireAccess request.authorId request.projectId .write s).bind
  rintro _ _ ⟨rfl, _⟩
  apply (ends_lift fun e he => isPlain_validateChanges he).bind
  rintro _ _ ⟨rfl, _⟩
  apply (ends_persist hs _ _ _).bind
  · rintro ⟨_, write⟩ t ⟨u, hu, hwrite⟩
    cases write with
    | committed row => exact ends_pure trivial
    | missingContent hashes =>
      dsimp only
      rw [missingContent_of_answer hwrite, mapM_map_eq_ok fun f _ => FileHash.parse_hex f]
      exact ends_pure trivial
  · exact fun _ => nofun

/-! ### Uploads -/

theorem isPlain_readBody {request : UploadRequest} {before : List UInt8} {body : List Frame} {e : ServiceError}
    (h : readBody request before body = .error e) : e.IsPlain := by
  induction body generalizing before with
  | nil =>
    rw [readBody, checkBody] at h
    split at h
    · cases h
      exact trivial
    · split at h <;> cases h
      exact trivial
  | cons frame rest ih =>
    cases frame with
    | fault reason =>
      cases h
      exact trivial
    | data bytes =>
      rw [readBody] at h
      split at h
      · cases h
        exact trivial
      · exact ih h

theorem isPlain_register (hcontent : Catalog.ContentSound c) {uploader : String} {k : Catalog.Chunk}
    {outcome : UploadOutcome} {e : ServiceError}
    (h : ((c.registerChunk uploader k).1.mapError ServiceError.ofStore).map (fun _ => outcome) = .error e) :
    e.IsPlain := by
  cases hregister : (c.registerChunk uploader k).1 with
  | ok reply =>
    rw [hregister] at h
    cases h
  | error failure =>
    rw [hregister] at h
    cases h
    exact isPlain_ofStore (Catalog.isRefusal_registerChunk hcontent hregister)

theorem ends_uploadChunk (hs : Sound real s) (settings : Settings) (request : UploadRequest) (body : List Frame)
    (now : DateTime) : Ends ServiceError.IsPlain s (uploadChunk settings request body now) fun _ _ => True := by
  obtain ⟨c, f, rfl⟩ := hs.exists_files
  refine ⟨fun _ _ _ => trivial, fun e t he => ?_⟩
  have h := uploaded hs settings request body now
  generalize perform (uploadChunk settings request body now) ⟨c, .files f⟩ = result at h he
  cases h with
  | invalid _ =>
    cases he
    exact isPlain_ofContent _
  | forbidden _ =>
    cases he
    exact trivial
  | otherSize _ _ _ =>
    cases he
    exact trivial
  | rejected _ _ read _ _ =>
    cases he
    exact isPlain_readBody read
  | linked _ _ _ => exact isPlain_register hs.content (congrArg Prod.fst he)
  | stored _ _ _ _ _ =>
    have hcontent : Catalog.ContentSound (withBlock c request now) := Catalog.contentSound_recorded hs.content
    exact isPlain_register hcontent (congrArg Prod.fst he)

/-! ### Downloads -/

/-- A user may read a path of a project, and the path has a file at a boundary. -/
structure Live (c : Catalog) (user : String) (projectId : Int) (path : String) (boundary : CommitBoundary)
    (r : Catalog.Revision) : Prop where
  readable : AccessLevel.read ≤ c.projectAccess user projectId
  valid : validatePath path = .ok ()
  found : ∃ k, boundaryCommit? c projectId boundary = some k ∧ c.fileAt? projectId path k.commitId = some r

/-- A plan is one of a revision: it has a chunk for each that the revision counts, in their order. -/
structure Plans (r : Catalog.Revision) (plan : DownloadPlan) : Prop where
  content : FileHash.parse r.contentHash = .ok plan.contentHash
  commitId : plan.commitId = r.commitId
  path : plan.path = r.path
  count : (plan.chunks.length : Int) = r.chunkCount
  indexes : plan.chunks.map DownloadChunk.chunkIndex = (List.range plan.chunks.length).map Int.ofNat

theorem InOrder.whole (hs : InOrder s) {r : Catalog.Revision} (hr : r ∈ s.catalog.revisions) :
    ((s.catalog.listChunks r.contentHash).length : Int) = r.chunkCount ∧
      isContiguous (s.catalog.listChunks r.contentHash) := by
  obtain ⟨n, hfile, hcount⟩ := hs.history.fileSound hs.content hr
  exact ⟨by rw [hfile.length_eq, hcount], by simp [isContiguous, hfile.indexes, hfile.length_eq]⟩

/-- The end of the lifetime of a URL is on no day of the calendar. -/
def IsOutside (settings : Settings) (now : DateTime) (e : ServiceError) : Prop :=
  e = .outOfCalendar ∧ now.add? settings.urlLifetime 0 = none

theorem expiry_ofSeconds {lifetime : Nat} (hfits : (lifetime : Int) ≤ Int64.maxValue.toInt) (now : DateTime) :
    UrlSigner.expiry (.ofSeconds lifetime) now =
      match now.add? lifetime 0 with
      | some t => .ok t
      | none => .error .outOfCalendar :=
  if_neg (Int.not_lt.mpr hfits)

theorem perform_presignChunk_error (hs : Sound real ⟨c, .files f⟩) {e : ObjectError}
    (hexpiry : UrlSigner.expiry (.ofSeconds settings.urlLifetime) now = .error e) {k : Catalog.Chunk} {h : BlockHash}
    (hhash : k.blockHash = h.hex) :
    perform (presignChunk settings now k) ⟨c, .files f⟩ = (.error (.ofObjects e), ⟨c, .files f⟩) := by
  have hparse : BlockHash.parse k.blockHash = .ok h := by rw [hhash, BlockHash.parse_hex]
  have hsign : f.presign h.objectKey (.ofSeconds settings.urlLifetime) now = .error e := by
    rw [hs.blockFiles.1.presign_eq, UrlSigner.sign, hexpiry, map_error]
  have hask : perform (askObjects (.presign h.objectKey (.ofSeconds settings.urlLifetime) now)) ⟨c, .files f⟩ =
      (.error (.ofObjects e), ⟨c, .files f⟩) := by
    rw [perform_askObjects]
    simp only [ObjectStore.answer, answer_presign, hsign, Except.mapError]
  rw [presignChunk, perform_bind_ok (perform_lift_ok hparse _), perform_bind, hask]

theorem ends_presignChunk (hs : Sound real s) (hlifetime : (settings.urlLifetime : Int) ≤ Int64.maxValue.toInt)
    {k : Catalog.Chunk} (hk : k ∈ s.catalog.chunks) (now : DateTime) :
    Ends (IsOutside settings now) s (presignChunk settings now k) fun signed t =>
      s = t ∧ k.index = signed.1.chunkIndex := by
  obtain ⟨c, f, rfl⟩ := hs.exists_files
  obtain ⟨h, _, hhash, _⟩ := hs.chunks k hk
  have hexpiry := expiry_ofSeconds hlifetime now
  cases hend : now.add? settings.urlLifetime 0 with
  | some expiresAt =>
    rw [hend] at hexpiry
    exact ends_of_ok (perform_presignChunk hs hexpiry hhash) ⟨rfl, rfl⟩
  | none =>
    rw [hend] at hexpiry
    exact ends_of_error (perform_presignChunk_error hs hexpiry hhash) ⟨rfl, hend⟩

theorem ends_resolveDownload_live (hs : Sound real s)
    (hlifetime : (settings.urlLifetime : Int) ≤ Int64.maxValue.toInt) {path : String} {boundary : CommitBoundary}
    {r : Catalog.Revision} (hlive : Live s.catalog user projectId path boundary r) (clock : Clock) :
    Ends (fun e => ∃ i : Nat, i < r.chunkCount ∧ IsOutside settings (clock i) e) s
      (resolveDownload settings user projectId path boundary clock) fun plan t => s = t ∧ Plans r plan := by
  obtain ⟨k, hcommit, hfile⟩ := hlive.found
  have hr := hs.history.fileAt?_mem hfile
  obtain ⟨n, hsound, hcount⟩ := hs.history.fileSound hs.content hr
  have hwhole : ¬(((s.catalog.listChunks r.contentHash).length : Int) ≠ r.chunkCount ∨
      !isContiguous (s.catalog.listChunks r.contentHash)) := by
    simp [hs.inOrder.whole hr]
  obtain ⟨hash, hparse⟩ := exists_parse_of_blocksCompose hsound.composes
  unfold resolveDownload
  apply ends_bind_ok (perform_requireAccess_ok hlive.readable)
  apply ends_bind_ok (perform_lift_ok hlive.valid s)
  apply ends_bind_ok (perform_resolveBoundary_some hcommit)
  apply ends_query (congrArg (fun found => (Except.ok found, s.catalog)) hfile)
  apply ends_query rfl
  rw [if_neg hwhole]
  have hpresigned (chunk : Catalog.Chunk × Nat) (hchunk : chunk ∈ (s.catalog.listChunks r.contentHash).zipIdx) :
      Ends (fun e => ∃ i : Nat, i < r.chunkCount ∧ IsOutside settings (clock i) e) s
        (presignChunk settings (clock chunk.2) chunk.1)
        fun signed t => s = t ∧ chunk.1.index = signed.1.chunkIndex := by
    have hplace := (List.mem_zipIdx hchunk).2.1
    have hcounted : (chunk.2 : Int) < r.chunkCount := by
      rw [← (hs.inOrder.whole hr).1]
      omega
    exact (ends_presignChunk hs hlifetime (Catalog.mem_listChunks.mp (List.fst_mem_of_mem_zipIdx hchunk)).1 _).mono
      fun _ he => ⟨_, hcounted, he⟩
  apply (ends_mapM hpresigned).bind
  rintro signed _ ⟨rfl, hsigned⟩
  have hlength : signed.length = n := by rw [← hsigned.length_eq, List.length_zipIdx, hsound.length_eq]
  have hne : signed.map (·.2) ≠ [] := by
    intro hnil
    refine Catalog.listChunks_ne_nil_of_completeCount? (hs.history.counted r hr) (List.eq_nil_of_length_eq_zero ?_)
    rw [hsound.length_eq, ← hlength, List.map_eq_nil_iff.mp hnil, List.length_nil]
  obtain ⟨expiresAt, -, hearliest, -⟩ := exists_earliest settings (clock signed.length) hne
  apply ends_bind_ok (perform_lift_ok hearliest _)
  apply ends_bind_ok (perform_lift_ok hparse _)
  -- Presigning keeps the index of each chunk, and those of a file in the catalog are 0, 1, … in their order.
  have hindexes : (s.catalog.listChunks r.contentHash).map Catalog.Chunk.index =
      (signed.map fun chunk => chunk.1).map DownloadChunk.chunkIndex := by
    rw [← List.zipIdx_map_fst 0 (s.catalog.listChunks r.contentHash), List.map_map, ← List.forall₂_eq_eq_eq,
      List.forall₂_map_left_iff, List.map_map, List.forall₂_map_right_iff]
    exact hsigned
  refine ends_pure ⟨rfl, hparse, rfl, rfl, ?_, ?_⟩
  · simp only [List.length_map, hlength, hcount]
  · simp only [← hindexes, hsound.indexes, List.length_map, hlength]

theorem ends_resolveDownload_dead {path : String} {boundary : CommitBoundary}
    (hdead : ∀ r, ¬Live s.catalog user projectId path boundary r) (settings : Settings) (clock : Clock) :
    Ends ServiceError.IsPlain s (resolveDownload settings user projectId path boundary clock) fun _ _ => True := by
  apply (ends_requireAccess user projectId .read s).bind
  rintro _ _ ⟨rfl, hread⟩
  apply (ends_lift fun _ _ => isPlain_ofContent _).bind
  rintro _ _ ⟨rfl, hvalid⟩
  apply (ends_resolveBoundary projectId boundary s).bind
  rintro k _ ⟨rfl, hcommit⟩
  cases hfile : s.catalog.fileAt? projectId path k.commitId with
  | none =>
    apply ends_query (congrArg (fun found => (Except.ok found, s.catalog)) hfile)
    exact ends_throw trivial
  | some r => exact absurd ⟨hread, hvalid, k, hcommit, hfile⟩ (hdead r)

/-! ### Operations -/

/-- How an operation may fail: not by a failure of the service itself, save that the end of the lifetime of download
URLs may be on no day of the calendar. -/
def Operation.MayFail (settings : Settings) (op : Operation) (e : ServiceError) : Prop :=
  e.IsPlain ∨ ∃ user projectId path boundary clock i,
    op = .resolveDownload user projectId path boundary clock ∧ IsOutside settings (clock i) e

theorem Operation.MayFail.ne_internal {op : Operation} {e : ServiceError} (h : op.MayFail settings e) (why : String) :
    e ≠ .internal why := by
  rintro rfl
  obtain hplain | ⟨_, _, _, _, _, _, _, hoverdue, _⟩ := h
  · exact hplain
  · cases hoverdue

theorem Operation.MayFail.outside {op : Operation} {e : ServiceError} (h : op.MayFail settings e)
    (he : e = .outOfCalendar) :
    ∃ user projectId path boundary clock i,
      op = .resolveDownload user projectId path boundary clock ∧ (clock i).add? settings.urlLifetime 0 = none := by
  subst he
  obtain hplain | ⟨user, projectId, path, boundary, clock, i, hop, _, hend⟩ := h
  · exact hplain.elim
  · exact ⟨user, projectId, path, boundary, clock, i, hop, hend⟩

/-- **No operation on sound stores fails by a failure of the service itself.** -/
theorem ends_act (hs : Sound real s) (hlifetime : (settings.urlLifetime : Int) ≤ Int64.maxValue.toInt)
    (op : Operation) : Ends (op.MayFail settings) s (op.act settings) fun _ _ => True := by
  have hin : InOrder s := hs.inOrder
  have hplain {op : Operation} {action : Op Unit} {post : Unit → Stores → Prop}
      (h : Ends ServiceError.IsPlain s action post) : Ends (op.MayFail settings) s action fun _ _ => True :=
    (h.mono fun _ => .inl).any
  cases op with
  | createProject creator teamId title now =>
    exact hplain (ends_discard (ends_createProject hin creator teamId title now))
  | listProjects user =>
    refine hplain (ends_discard (ends_askCatalog hin ?_))
    exact nofun
  | getProject user projectId => exact hplain (ends_discard (ends_getProject user projectId s))
  | upload request body now => exact hplain (ends_discard (ends_uploadChunk hs settings request body now))
  | commit request now => exact hplain (ends_discard (ends_commit hin request now))
  | history user projectId offset => exact hplain (ends_discard (ends_history settings user projectId offset s))
  | commitDetail user projectId commitId => exact hplain (ends_discard (ends_commitDetail hin user projectId commitId))
  | resolveSequence user projectId number =>
    exact hplain (ends_discard (ends_resolveSequence user projectId number s))
  | currentState user projectId => exact hplain (ends_discard (ends_stateAt hin user projectId .latest))
  | stateAt user projectId boundary => exact hplain (ends_discard (ends_stateAt hin user projectId boundary))
  | diff user projectId old new => exact hplain (ends_discard (ends_diff hin user projectId old new))
  | restore user projectId commitId clock =>
    exact hplain (ends_discard (ends_restore hin user projectId commitId clock))
  | resolveDownload user projectId path boundary clock =>
    by_cases hlive : ∃ r, Live s.catalog user projectId path boundary r
    · obtain ⟨r, hlive⟩ := hlive
      refine (ends_discard (ends_resolveDownload_live hs hlifetime hlive clock)).mono fun e he => .inr ?_
      obtain ⟨i, -, he⟩ := he
      exact ⟨user, projectId, path, boundary, clock, i, rfl, he⟩
    · exact hplain (ends_discard (ends_resolveDownload_dead (fun r hr => hlive ⟨r, hr⟩) settings clock))
  | grantOnProject user projectId level now =>
    refine hplain (ends_askCatalog hin ?_)
    exact nofun
  | grantOnTeam user teamId level now =>
    refine hplain (ends_askCatalog hin ?_)
    exact nofun

end Depot.Service
