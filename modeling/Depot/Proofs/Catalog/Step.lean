import Depot.Catalog.Request
import Depot.Proofs.Outcome

/-!
# What one request does to a catalog

`Step c next` lists everything that a request can do to the rows of `c`, each with what the catalog checked
before it did so. `answer_step` says that no request does anything else, so what all steps keep holds after
every sequence of requests (`after_induction`). The proofs about reachable catalogs split on a step and never
on a request.
-/

namespace Depot.Catalog

open Content Time

/-- The catalog after requests, one after another. -/
def after (c : Catalog) (requests : List Request) : Catalog :=
  requests.foldl (fun c r => (c.answer r).2) c

@[simp] theorem after_nil (c : Catalog) : c.after [] = c := rfl

@[simp] theorem after_cons (c : Catalog) (r : Request) (requests : List Request) :
    c.after (r :: requests) = (c.answer r).2.after requests := rfl

theorem after_append (c : Catalog) (first second : List Request) :
    c.after (first ++ second) = (c.after first).after second := by
  simp only [after, List.foldl_append]

/-! ### Rows that are added together -/

/-- The rows that a commit makes of its drafts, numbered behind `count` others. -/
def rowsFrom (count : Nat) (commit : CommitSummary) (chunkCount : String → Int) :
    List RevisionDraft → List Revision
  | [] => []
  | draft :: rest =>
    ⟨count + 1, commit.projectId, draft.path, commit.commitId, draft.contentHash, draft.kind.code,
      chunkCount draft.contentHash⟩ :: rowsFrom (count + 1) commit chunkCount rest

/-- The commit that a project is given next. -/
def nextCommit (c : Catalog) (projectId : Int) (authorId comment : String) (fileCount : Int)
    (createdAt : DateTime) : CommitSummary :=
  ⟨c.commits.length + 1, projectId, c.nextSequence projectId, authorId, comment, fileCount, createdAt⟩

/-- The commit that a draft becomes. -/
def commitOf (c : Catalog) (draft : CommitDraft) : CommitSummary :=
  c.nextCommit draft.projectId draft.authorId draft.comment draft.revisions.length draft.createdAt

/-- The revisions that a draft on complete content becomes. -/
def rowsOf (c : Catalog) (draft : CommitDraft) : List Revision :=
  rowsFrom c.revisions.length (c.commitOf draft) (fun hash => (c.completeCount? hash).getD 0) draft.revisions

/-- The catalog with a commit and its revisions behind all others. -/
def withCommit (c : Catalog) (commit : CommitSummary) (rows : List Revision) : Catalog :=
  { c with commits := c.commits ++ [commit], revisions := c.revisions ++ rows }

/-- The catalog with a project, its first commit and its owner behind all others. -/
def withProject (c : Catalog) (teamId title createdBy : String) (createdAt : DateTime) : Catalog :=
  { c with
    projects := c.projects ++ [⟨c.projects.length + 1, teamId, title, createdBy, createdAt⟩]
    commits := c.commits ++
      [⟨c.commits.length + 1, c.projects.length + 1, 1, createdBy, initialCommitMessage, 0, createdAt⟩]
    projectGrants := c.projectGrants ++
      [⟨createdBy, c.projects.length + 1, AccessLevel.owner.code, createdAt⟩] }

theorem insertRevisions_eq (c : Catalog) (commit : CommitSummary) (chunkCount : String → Int)
    (drafts : List RevisionDraft) :
    c.insertRevisions commit chunkCount drafts =
      { c with revisions := c.revisions ++ rowsFrom c.revisions.length commit chunkCount drafts } := by
  induction drafts generalizing c with
  | nil => simp [insertRevisions, rowsFrom]
  | cons draft rest ih =>
    rw [insertRevisions, ih]
    simp [rowsFrom, revisionRow]

theorem insertCommit_eq (c : Catalog) (projectId : Int) (authorId comment : String) (fileCount : Int)
    (createdAt : DateTime) (hproject : (c.project? projectId).isSome) :
    c.insertCommit projectId authorId comment fileCount createdAt =
      .ok (c.nextCommit projectId authorId comment fileCount createdAt,
        { c with commits := c.commits ++ [c.nextCommit projectId authorId comment fileCount createdAt] }) := by
  have hnone : (c.project? projectId).isNone = false := by
    rw [Option.isNone_eq_false_iff]
    exact hproject
  simp [insertCommit, hnone, nextCommit]

theorem insertCommit_error {c : Catalog} {projectId : Int} (authorId comment : String) (fileCount : Int)
    (createdAt : DateTime) (hproject : c.project? projectId = none) :
    ∃ e, c.insertCommit projectId authorId comment fileCount createdAt = .error e :=
  ⟨_, by simp only [insertCommit, hproject, Option.isNone_none, if_true]; rfl⟩

/-! ### Steps -/

/-- What the catalog checks before it stages a chunk. -/
structure Stageable (c : Catalog) (chunk : Chunk) : Prop where
  inside : 0 ≤ chunk.index ∧ chunk.index < chunk.count
  uncatalogued : c.listChunks chunk.fileHash = []
  recorded : (c.block? chunk.blockHash).isSome

/-- What an uploader has staged for a chunk's file once the chunk is staged, too. -/
def stagedWith (c : Catalog) (uploader : String) (chunk : Chunk) : List Chunk :=
  (c.stage uploader chunk).stagedFor uploader chunk.fileHash

/-- The catalog in which all that an uploader staged for a chunk's file, the chunk included, has become rows
of the file. -/
def withFile (c : Catalog) (uploader : String) (chunk : Chunk) : Catalog :=
  { c.unstage uploader chunk.fileHash with chunks := c.chunks ++ c.stagedWith uploader chunk }

theorem unstage_stage (c : Catalog) (uploader : String) (chunk : Chunk) :
    (c.stage uploader chunk).unstage uploader chunk.fileHash = c.unstage uploader chunk.fileHash := by
  simp only [stage, unstage, List.filter_append, List.filter_filter]
  congr 1
  have hnew : ([⟨uploader, chunk⟩] : List StagedChunk).filter
      (fun s => !isStagedFor uploader chunk.fileHash s) = [] := by simp [isStagedFor]
  rw [hnew, List.append_nil]
  apply List.filter_congr
  intro s _
  cases isStagedFor uploader chunk.fileHash s <;> simp

/-- What the registration of a chunk answers, and what it leaves. -/
inductive Registered (c : Catalog) (uploader : String) (chunk : Chunk) :
    Except StoreError InsertOutcome × Catalog → Prop where
  | outside {e : StoreError} (position : chunk.index < 0 ∨ chunk.count ≤ chunk.index) :
    Registered c uploader chunk (.error e, c)
  | mismatch {known : Chunk} {rest : List Chunk} {e : StoreError}
    (catalogued : c.listChunks chunk.fileHash = known :: rest) (differs : c.confirm known chunk = .error e) :
    Registered c uploader chunk (.error e, c)
  | confirmed {known : Chunk} {rest : List Chunk} (catalogued : c.listChunks chunk.fileHash = known :: rest)
    (same : c.confirm known chunk = .ok ()) :
    Registered c uploader chunk (.ok .alreadyExists, c.unstage uploader chunk.fileHash)
  | unrecorded {e : StoreError} (uncatalogued : c.listChunks chunk.fileHash = [])
    (absent : c.block? chunk.blockHash = none) : Registered c uploader chunk (.error e, c)
  | staged (can : c.Stageable chunk) (partly : ((c.stagedWith uploader chunk).length : Int) ≠ chunk.count) :
    Registered c uploader chunk (.ok .inserted, c.stage uploader chunk)
  | promoted (can : c.Stageable chunk) (whole : ((c.stagedWith uploader chunk).length : Int) = chunk.count)
    (composes : blocksCompose chunk.fileHash ((c.stagedWith uploader chunk).map Chunk.blockHash)) :
    Registered c uploader chunk (.ok .inserted, c.withFile uploader chunk)
  | dropped {e : StoreError} (can : c.Stageable chunk)
    (whole : ((c.stagedWith uploader chunk).length : Int) = chunk.count)
    (differs : blocksCompose chunk.fileHash ((c.stagedWith uploader chunk).map Chunk.blockHash) = false) :
    Registered c uploader chunk (.error e, c.unstage uploader chunk.fileHash)

theorem registered (c : Catalog) (uploader : String) (chunk : Chunk) :
    Registered c uploader chunk (c.registerChunk uploader chunk) := by
  unfold registerChunk
  split
  · exact .outside ‹_›
  · rename_i hinside
    split
    · rename_i known rest hlist
      cases hconfirm : c.confirm known chunk with
      | error e => exact .mismatch hlist hconfirm
      | ok => exact .confirmed hlist hconfirm
    · rename_i hlist
      split
      · exact .unrecorded hlist (by simpa using ‹(c.block? chunk.blockHash).isNone›)
      · rename_i hblock
        have can : c.Stageable chunk :=
          ⟨by omega, hlist, Option.isSome_iff_ne_none.mpr (by simpa using hblock)⟩
        unfold promote
        dsimp only
        rw [unstage_stage]
        split
        · exact .staged can ‹_›
        · have hwhole := Decidable.not_not.mp ‹_›
          split
          · exact .promoted can hwhole ‹_›
          · exact .dropped can hwhole (Bool.eq_false_iff.mpr ‹_›)

/-- What one request can do to the rows of a catalog. -/
inductive Step (c : Catalog) : Catalog → Prop where
  | idle : Step c c
  | recorded {block : StoredBlock} (absent : c.block? block.blockHash = none) :
    Step c { c with blocks := c.blocks ++ [block] }
  | removed {blockHash : String} (free : c.isReferenced blockHash = false) :
    Step c { c with blocks := c.blocks.filter fun b => b.blockHash != blockHash }
  | confirmed {uploader fileHash : String} (catalogued : c.listChunks fileHash ≠ []) :
    Step c (c.unstage uploader fileHash)
  | staged {uploader : String} {chunk : Chunk} (can : c.Stageable chunk)
    (partly : ((c.stagedWith uploader chunk).length : Int) ≠ chunk.count) :
    Step c (c.stage uploader chunk)
  | dropped {uploader : String} {chunk : Chunk} (can : c.Stageable chunk)
    (whole : ((c.stagedWith uploader chunk).length : Int) = chunk.count) :
    Step c (c.unstage uploader chunk.fileHash)
  | promoted {uploader : String} {chunk : Chunk} (can : c.Stageable chunk)
    (whole : ((c.stagedWith uploader chunk).length : Int) = chunk.count)
    (composes : blocksCompose chunk.fileHash ((c.stagedWith uploader chunk).map Chunk.blockHash)) :
    Step c (c.withFile uploader chunk)
  | founded {teamId title createdBy : String} {createdAt : DateTime} :
    Step c (c.withProject teamId title createdBy createdAt)
  | committed {draft : CommitDraft} (project : (c.project? draft.projectId).isSome)
    (complete : c.missingFiles (distinctHashes draft.revisions) = []) :
    Step c (c.withCommit (c.commitOf draft) (c.rowsOf draft))
  | restored {projectId target : Int} {latest : CommitSummary} {authorId comment : String}
    {createdAt : DateTime} {drafts : List RevisionDraft} (project : (c.project? projectId).isSome)
    (known : (c.commit? projectId target).isSome) (newest : c.latestCommit? projectId = some latest)
    (planned : planRestore (c.stateAt projectId latest.commitId) (c.stateAt projectId target) = .ok drafts) :
    Step c (c.withCommit (c.nextCommit projectId authorId comment drafts.length createdAt)
      (rowsFrom c.revisions.length (c.nextCommit projectId authorId comment drafts.length createdAt)
        (chunkCountIn (c.stateAt projectId latest.commitId ++ c.stateAt projectId target)) drafts))
  | granted {grants : List ProjectGrant}
    (known : ∀ g ∈ grants, g ∈ c.projectGrants ∨ (c.project? g.projectId).isSome) :
    Step c { c with projectGrants := grants }
  | teamGranted {grants : List TeamGrant} : Step c { c with teamGrants := grants }
  | tokens {tokens : List Token} : Step c { c with tokens }
  | marked {marker : Option (Option String)} : Step c { c with marker }

theorem commitOr_step {α : Type} {c : Catalog} {result : Except StoreError (α × Catalog)}
    (h : ∀ value next, result = .ok (value, next) → Step c next) : Step c (c.commitOr result).2 := by
  match result with
  | .ok (value, next) => exact h value next rfl
  | .error e => exact .idle

theorem putBlock_step (c : Catalog) (block : StoredBlock) : Step c (c.putBlock block).2 := by
  unfold putBlock
  split
  · exact .idle
  · exact .recorded ‹_›

theorem deleteBlock_step (c : Catalog) (blockHash : String) :
    Step c (c.commitOr (c.deleteBlock blockHash)).2 := by
  apply commitOr_step
  intro value next h
  unfold deleteBlock at h
  split at h
  · cases h
    exact .idle
  · split at h
    · cases h
    · cases h
      exact .removed (Bool.eq_false_iff.mpr ‹_›)

theorem registerChunk_step (c : Catalog) (uploader : String) (chunk : Chunk) :
    Step c (c.registerChunk uploader chunk).2 := by
  have h := registered c uploader chunk
  generalize c.registerChunk uploader chunk = result at h
  cases h with
  | outside _ => exact .idle
  | mismatch _ _ => exact .idle
  | confirmed known _ => exact .confirmed (by rw [known]; exact List.cons_ne_nil _ _)
  | unrecorded _ _ => exact .idle
  | staged can partly => exact .staged can partly
  | promoted can whole composes => exact .promoted can whole composes
  | dropped can whole _ => exact .dropped can whole

theorem createProject_step (c : Catalog) (teamId title createdBy : String) (createdAt : DateTime) :
    Step c (c.commitOr (c.createProject teamId title createdBy createdAt)).2 := by
  apply commitOr_step
  intro value next h
  unfold createProject at h
  split at h
  · cases h
  · cases h
    exact .founded

theorem createCommit_eq (c : Catalog) (draft : CommitDraft) (hproject : (c.project? draft.projectId).isSome) :
    c.createCommit draft =
      match c.missingFiles (distinctHashes draft.revisions) with
      | [] => .ok (.committed (c.commitOf draft), c.withCommit (c.commitOf draft) (c.rowsOf draft))
      | missing => .ok (.missingContent missing, c) := by
  rw [createCommit, insertCommit_eq c _ _ _ _ _ hproject, ok_bind]
  cases c.missingFiles (distinctHashes draft.revisions) with
  | nil => simp only [insertRevisions_eq]; rfl
  | cons hash rest => rfl

theorem createCommit_eq_ok {c next : Catalog} {draft : CommitDraft} {write : CommitWrite}
    (h : c.createCommit draft = .ok (write, next)) :
    next = c ∨ (c.project? draft.projectId).isSome ∧ c.missingFiles (distinctHashes draft.revisions) = [] ∧
      next = c.withCommit (c.commitOf draft) (c.rowsOf draft) := by
  cases hproject : c.project? draft.projectId with
  | none =>
    obtain ⟨e, he⟩ := insertCommit_error draft.authorId draft.comment draft.revisions.length draft.createdAt
      hproject
    rw [createCommit, he] at h
    cases h
  | some project =>
    have hsome : (c.project? draft.projectId).isSome := by simp [hproject]
    rw [createCommit_eq c draft hsome] at h
    split at h
    · cases h
      exact .inr ⟨rfl, ‹_›, rfl⟩
    · cases h
      exact .inl rfl

theorem createCommit_step (c : Catalog) (draft : CommitDraft) :
    Step c (c.commitOr (c.createCommit draft)).2 := by
  apply commitOr_step
  intro value next h
  obtain rfl | ⟨hproject, hcomplete, rfl⟩ := createCommit_eq_ok h
  · exact .idle
  · exact .committed hproject hcomplete

theorem restoreCommit_eq {c : Catalog} {projectId target : Int} {found latest : CommitSummary}
    {drafts : List RevisionDraft} (authorId comment : String) (createdAt : DateTime)
    (hproject : (c.project? projectId).isSome) (hfound : c.commit? projectId target = some found)
    (hlatest : c.latestCommit? projectId = some latest)
    (hplan : planRestore (c.stateAt projectId latest.commitId) (c.stateAt projectId target) = .ok drafts) :
    c.restoreCommit projectId target authorId comment createdAt =
      let commit := c.nextCommit projectId authorId comment drafts.length createdAt
      let rows := rowsFrom c.revisions.length commit
        (chunkCountIn (c.stateAt projectId latest.commitId ++ c.stateAt projectId target)) drafts
      .ok ((commit, rows), c.withCommit commit rows) := by
  rw [restoreCommit, hfound, hlatest]
  simp only [hplan, ok_bind, insertCommit_eq c _ _ _ _ _ hproject, insertRevisions_eq]
  simp [withCommit, pure, Except.pure]

theorem restoreCommit_eq_ok {c next : Catalog} {projectId target : Int} {authorId comment : String}
    {createdAt : DateTime} {written : CommitSummary × List Revision}
    (h : c.restoreCommit projectId target authorId comment createdAt = .ok (written, next)) :
    ∃ latest drafts, (c.project? projectId).isSome ∧ (c.commit? projectId target).isSome ∧
      c.latestCommit? projectId = some latest ∧
      planRestore (c.stateAt projectId latest.commitId) (c.stateAt projectId target) = .ok drafts ∧
      next = c.withCommit (c.nextCommit projectId authorId comment drafts.length createdAt)
        (rowsFrom c.revisions.length (c.nextCommit projectId authorId comment drafts.length createdAt)
          (chunkCountIn (c.stateAt projectId latest.commitId ++ c.stateAt projectId target)) drafts) := by
  cases hfound : c.commit? projectId target with
  | none => simp [restoreCommit, hfound] at h
  | some found =>
    cases hlatest : c.latestCommit? projectId with
    | none => simp [restoreCommit, hfound, hlatest] at h
    | some latest =>
      have hcopy := h
      rw [restoreCommit, hfound, hlatest] at hcopy
      obtain ⟨drafts, hplan, hrest⟩ := bind_eq_ok.mp hcopy
      cases hproject : c.project? projectId with
      | none =>
        obtain ⟨e, he⟩ := insertCommit_error authorId comment drafts.length createdAt hproject
        rw [he] at hrest
        cases hrest
      | some project =>
        have hsome : (c.project? projectId).isSome := by simp [hproject]
        rw [restoreCommit_eq authorId comment createdAt hsome hfound hlatest hplan] at h
        cases h
        exact ⟨latest, drafts, rfl, rfl, rfl, hplan, rfl⟩

theorem restoreCommit_step (c : Catalog) (projectId target : Int) (authorId comment : String)
    (createdAt : DateTime) :
    Step c (c.commitOr (c.restoreCommit projectId target authorId comment createdAt)).2 := by
  apply commitOr_step
  intro value next h
  obtain ⟨latest, drafts, hproject, hknown, hlatest, hplan, rfl⟩ := restoreCommit_eq_ok h
  exact .restored hproject hknown hlatest hplan

theorem setProjectPermission_step (c : Catalog) (userId : String) (projectId : Int) (level : AccessLevel)
    (updatedAt : DateTime) :
    Step c (c.commitOr (c.setProjectPermission userId projectId level updatedAt)).2 := by
  apply commitOr_step
  intro value next h
  unfold setProjectPermission at h
  split at h
  · cases h
    exact .granted fun g hg => .inl (List.mem_filter.mp hg).1
  · split at h
    · cases h
    · rename_i hproject
      cases h
      refine .granted fun g hg => ?_
      rcases List.mem_append.mp hg with hg | hg
      · exact .inl (List.mem_filter.mp hg).1
      · rw [List.mem_singleton.mp hg]
        exact .inr (Option.isSome_iff_ne_none.mpr (by simpa using hproject))

theorem setTeamPermission_step (c : Catalog) (userId teamId : String) (level : AccessLevel)
    (updatedAt : DateTime) : Step c (c.setTeamPermission userId teamId level updatedAt) := by
  unfold setTeamPermission
  dsimp only
  split
  · exact .teamGranted
  · exact .teamGranted

theorem createToken_step (c : Catalog) (token : Token) :
    Step c (c.commitOr (c.createToken token)).2 := by
  apply commitOr_step
  intro value next h
  unfold createToken at h
  split at h
  · cases h
  · cases h
    exact .tokens

/-- **A request makes one step.** -/
theorem answer_step (c : Catalog) (r : Request) : Step c (c.answer r).2 := by
  cases r with
  | putBlock block => exact putBlock_step c block
  | deleteBlock blockHash => exact deleteBlock_step c blockHash
  | registerChunk uploader chunk => exact registerChunk_step c uploader chunk
  | createProject teamId title createdBy createdAt =>
    exact createProject_step c teamId title createdBy createdAt
  | createCommit draft => exact createCommit_step c draft
  | restoreCommit projectId target authorId comment createdAt =>
    exact restoreCommit_step c projectId target authorId comment createdAt
  | setProjectPermission userId projectId level updatedAt =>
    exact setProjectPermission_step c userId projectId level updatedAt
  | setTeamPermission userId teamId level updatedAt =>
    exact setTeamPermission_step c userId teamId level updatedAt
  | createToken token => exact createToken_step c token
  | touchToken tokenId usedAt => exact .tokens
  | revokeToken tokenId revokedAt => exact .tokens
  | setAdminMarker tokenId => exact .marked
  | migrate => exact .marked
  | _ => exact .idle

theorem after_induction {P : Catalog → Prop} (hstep : ∀ c next, Step c next → P c → P next) {c : Catalog}
    (hc : P c) (requests : List Request) : P (c.after requests) := by
  induction requests generalizing c with
  | nil => exact hc
  | cons r rest ih => exact ih (hstep c _ (answer_step c r) hc)

end Depot.Catalog
