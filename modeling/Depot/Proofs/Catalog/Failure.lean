import Depot.Proofs.Catalog.Past

/-!
# Requests that fail

- A request that fails changes nothing, save that staged blocks which turn out not to compose their file are dropped
  (`answer_error`).
- What does not concern staging does not depend on what is staged (`answer_withStaged`), so after a request that
  failed it goes as if that had not been made.
- Identifiers are given in turn (`goesOn_after`), so a request that fails takes none.
-/

namespace Depot.Catalog

open Content Time

variable {c next d : Catalog} {uploader : String} {chunk : Chunk} {r : Request} {e : StoreError}

/-! ### Staged blocks that do not fit -/

/-- A chunk completes what its uploader has staged for its file, and the blocks do not compose the file's hash. -/
structure Miscomposed (c : Catalog) (uploader : String) (chunk : Chunk) : Prop where
  can : c.Stageable chunk
  whole : ((c.stagedWith uploader chunk).length : Int) = chunk.count
  differs : blocksCompose chunk.fileHash ((c.stagedWith uploader chunk).map Chunk.blockHash) = false

/-- How such a chunk is refused. -/
def miscomposition (fileHash : String) : StoreError :=
  .constraint s!"blocks uploaded for file {fileHash} do not compose its hash"

theorem registerChunk_miscomposed (h : c.Miscomposed uploader chunk) :
    c.registerChunk uploader chunk = (.error (miscomposition chunk.fileHash), c.unstage uploader chunk.fileHash) := by
  have hinside : ¬(chunk.index < 0 ∨ chunk.count ≤ chunk.index) := by
    have := h.can.inside
    omega
  have hblock : ¬(c.block? chunk.blockHash).isNone := by simpa using Option.isSome_iff_ne_none.mp h.can.recorded
  have hwhole : ¬(((c.stage uploader chunk).stagedFor uploader chunk.fileHash).length : Int) ≠ chunk.count :=
    not_not.mpr h.whole
  have hdiffers : ¬blocksCompose chunk.fileHash
      (((c.stage uploader chunk).stagedFor uploader chunk.fileHash).map Chunk.blockHash) :=
    Bool.eq_false_iff.mp h.differs
  rw [registerChunk, if_neg hinside, h.can.uncatalogued]
  dsimp only
  rw [if_neg hblock, promote, if_neg hwhole]
  dsimp only
  rw [if_neg hdiffers, unstage_stage]
  rfl

theorem registerChunk_error (h : c.registerChunk uploader chunk = (.error e, next)) :
    next = c ∨ c.Miscomposed uploader chunk := by
  have hcases := registered c uploader chunk
  rw [h] at hcases
  cases hcases with
  | outside | mismatch | unrecorded => exact .inl rfl
  | dropped can whole differs => exact .inr ⟨can, whole, differs⟩

/-! ### All requests -/

theorem commitOr_error {α : Type} {result : Except StoreError (α × Catalog)}
    (h : c.commitOr result = (.error e, next)) : next = c := by
  match result with
  | .ok (value, written) => cases h
  | .error failure =>
    cases h
    rfl

/-- **A request that fails changes nothing, save that staged blocks that do not compose their file are dropped.** -/
theorem answer_error (h : c.answer r = (.error e, next)) :
    (next = c ∧ ∀ uploader chunk, r = .registerChunk uploader chunk → ¬c.Miscomposed uploader chunk) ∨
      ∃ uploader chunk, r = .registerChunk uploader chunk ∧ c.Miscomposed uploader chunk ∧
        e = miscomposition chunk.fileHash ∧ next = c.unstage uploader chunk.fileHash := by
  cases r with
  | registerChunk uploader chunk =>
    by_cases hmis : c.Miscomposed uploader chunk
    · obtain ⟨he, hnext⟩ := Prod.mk.inj (h.symm.trans (registerChunk_miscomposed hmis))
      exact .inr ⟨uploader, chunk, rfl, hmis, Except.error.inj he, hnext⟩
    · refine .inl ⟨(registerChunk_error h).resolve_right hmis, ?_⟩
      rintro _ _ ⟨⟩
      exact hmis
  | deleteBlock | createProject | createCommit | restoreCommit | setProjectPermission | createToken =>
    refine .inl ⟨commitOr_error h, ?_⟩
    rintro _ _ ⟨⟩
  | adminMarker =>
    refine .inl ⟨(congrArg Prod.snd h).symm, ?_⟩
    rintro _ _ ⟨⟩
  | _ => cases h

/-! ### What does not concern staging -/

/-- The request neither reads nor changes what is staged. -/
def Request.IgnoresStaging : Request → Prop
  | .registerChunk _ _ | .countStaged _ _ | .deleteBlock _ => False
  | _ => True

/-- The catalog with something else staged. -/
def withStaged (c : Catalog) (staged : List StagedChunk) : Catalog := { c with staged }

section Staging

variable (staged : List StagedChunk)

theorem commitOr_withStaged {α : Type} {result other : Except StoreError (α × Catalog)}
    (h : other = result.map fun written => (written.1, written.2.withStaged staged)) :
    (c.withStaged staged).commitOr other = ((c.commitOr result).1, (c.commitOr result).2.withStaged staged) := by
  subst h
  match result with
  | .ok (value, written) => rfl
  | .error failure => rfl

theorem insertCommit_withStaged (projectId : Int) (authorId comment : String) (fileCount : Int)
    (createdAt : DateTime) :
    (c.withStaged staged).insertCommit projectId authorId comment fileCount createdAt =
      (c.insertCommit projectId authorId comment fileCount createdAt).map fun written =>
        (written.1, written.2.withStaged staged) := by
  have hproject : (c.withStaged staged).project? projectId = c.project? projectId := rfl
  rw [insertCommit, insertCommit, hproject]
  cases c.project? projectId <;> rfl

theorem createCommit_withStaged (draft : CommitDraft) :
    (c.withStaged staged).createCommit draft =
      (c.createCommit draft).map fun written => (written.1, written.2.withStaged staged) := by
  have hmissing : (c.withStaged staged).missingFiles = c.missingFiles := rfl
  rw [createCommit, createCommit, insertCommit_withStaged, hmissing]
  cases c.insertCommit draft.projectId draft.authorId draft.comment draft.revisions.length draft.createdAt with
  | error failure => rfl
  | ok written =>
    simp only [map_ok, ok_bind, insertRevisions_eq]
    cases c.missingFiles (distinctHashes draft.revisions) <;> rfl

theorem restoreCommit_withStaged (projectId target : Int) (authorId comment : String) (createdAt : DateTime) :
    (c.withStaged staged).restoreCommit projectId target authorId comment createdAt =
      (c.restoreCommit projectId target authorId comment createdAt).map fun written =>
        (written.1, written.2.withStaged staged) := by
  have hfound : (c.withStaged staged).commit? projectId target = c.commit? projectId target := rfl
  have hlatest : (c.withStaged staged).latestCommit? projectId = c.latestCommit? projectId := rfl
  have hstate : (c.withStaged staged).stateAt = c.stateAt := rfl
  rw [restoreCommit, restoreCommit, hfound, hlatest, hstate]
  cases c.commit? projectId target with
  | none => rfl
  | some found =>
    cases c.latestCommit? projectId with
    | none => rfl
    | some latest =>
      dsimp only
      cases planRestore (c.stateAt projectId latest.commitId) (c.stateAt projectId target) with
      | error failure => rfl
      | ok drafts =>
        rw [ok_bind, ok_bind, insertCommit_withStaged]
        cases c.insertCommit projectId authorId comment drafts.length createdAt with
        | error failure => rfl
        | ok written =>
          simp only [map_ok, ok_bind, insertRevisions_eq]
          rfl

/-- **A request that does not concern staging is answered the same whatever is staged, and leaves that.** -/
theorem answer_withStaged (hr : r.IgnoresStaging) :
    (c.withStaged staged).answer r = ((c.answer r).1, (c.answer r).2.withStaged staged) := by
  cases r with
  | registerChunk | countStaged | deleteBlock => exact hr.elim
  | putBlock block =>
    have hblock : (c.withStaged staged).block? block.blockHash = c.block? block.blockHash := rfl
    simp only [answer, putBlock, hblock]
    cases c.block? block.blockHash <;> rfl
  | createProject teamId title createdBy createdAt =>
    apply commitOr_withStaged
    have hprojects : (c.withStaged staged).projects = c.projects := rfl
    rw [createProject, createProject, hprojects]
    split <;> rfl
  | createCommit draft => exact commitOr_withStaged staged (createCommit_withStaged staged draft)
  | restoreCommit projectId target authorId comment createdAt =>
    exact commitOr_withStaged staged (restoreCommit_withStaged staged projectId target authorId comment createdAt)
  | setProjectPermission userId projectId level updatedAt =>
    apply commitOr_withStaged
    have hproject : (c.withStaged staged).project? projectId = c.project? projectId := rfl
    rw [setProjectPermission, setProjectPermission, hproject]
    split
    · rfl
    · split <;> rfl
  | setTeamPermission userId teamId level updatedAt => cases level <;> rfl
  | createToken token =>
    apply commitOr_withStaged
    have htokens : (c.withStaged staged).tokens = c.tokens := rfl
    rw [createToken, createToken, htokens]
    split <;> rfl
  | _ => rfl

theorem after_withStaged {later : List Request} (hlater : ∀ q ∈ later, q.IgnoresStaging) :
    (c.withStaged staged).after later = (c.after later).withStaged staged := by
  induction later generalizing c with
  | nil => rfl
  | cons q rest ih =>
    rw [after_cons, after_cons, answer_withStaged staged (hlater q List.mem_cons_self)]
    exact ih fun p hp => hlater p (List.mem_cons_of_mem q hp)

end Staging

/-! ### Identifiers -/

/-- A later catalog has what there was, and what it has besides begins with the identifiers that come next. -/
structure GoesOn (c d : Catalog) : Prop where
  projects : ∃ made, d.projects = c.projects ++ made ∧ ∀ p ∈ made.head?, p.projectId = c.projects.length + 1
  commits : ∃ made, d.commits = c.commits ++ made ∧ ∀ k ∈ made.head?, k.commitId = c.commits.length + 1
  revisions : ∃ made, d.revisions = c.revisions ++ made ∧ ∀ r ∈ made.head?, r.revisionId = c.revisions.length + 1

theorem Numbered.head_append {α : Type} {id : α → Int} {old made : List α} (h : Numbered ((old ++ made).map id)) :
    ∀ a ∈ made.head?, id a = old.length + 1 := by
  intro a ha
  have hat : ((old ++ made).map id)[old.length]? = some (id a) := by
    rw [List.getElem?_map, List.getElem?_append_right (Nat.le_refl _), Nat.sub_self, ← List.head?_eq_getElem?, ha]
    rfl
  rw [h, List.getElem?_map, Option.map_eq_some_iff] at hat
  obtain ⟨i, hi, hid⟩ := hat
  obtain ⟨_, rfl⟩ := List.getElem?_eq_some_iff.mp hi
  rw [← hid, List.getElem_range]

theorem projects_step (hstep : Step c next) : c.projects <+: next.projects := by
  cases hstep with
  | founded => exact List.prefix_append _ _
  | _ => exact List.prefix_refl _

theorem projects_after (c : Catalog) (later : List Request) : c.projects <+: (c.after later).projects :=
  after_induction (P := fun d => c.projects <+: d.projects) (fun _ _ hstep h => h.trans (projects_step hstep))
    (List.prefix_refl _) later

theorem goesOn_after (h : HistorySound c) (later : List Request) : GoesOn c (c.after later) := by
  have hafter : HistorySound (c.after later) :=
    after_induction (fun _ _ => historySound_step) h later
  obtain ⟨projects, hprojects⟩ := projects_after c later
  obtain ⟨commits, hcommits, _⟩ := (later_after c later).commits
  obtain ⟨rows, hrows, _⟩ := (later_after c later).revisions
  refine ⟨⟨projects, hprojects.symm, ?_⟩, ⟨commits, hcommits, ?_⟩, ⟨rows, hrows, ?_⟩⟩
  · exact Numbered.head_append (hprojects ▸ hafter.projectIds)
  · exact Numbered.head_append (hcommits ▸ hafter.commitIds)
  · exact Numbered.head_append (hrows ▸ hafter.revisionIds)

/-- **In a catalog that requests have made, a request that fails leaves no trace: the catalog is as it was, save that an
uploader's staged blocks of a file are dropped when all are there and do not compose the file's hash, which is the one
way in which that registration can end. Whatever does not concern staging goes on as if the request had not been made,
and the next project, commit and revision are numbered as if it had not.** -/
theorem reachable_failure (requests : List Request)
    (hfails : (Catalog.empty.after requests).answer r = (.error e, next)) :
    let c := Catalog.empty.after requests
    ((next = c ∧ ∀ uploader chunk, r = .registerChunk uploader chunk → ¬c.Miscomposed uploader chunk) ∨
        ∃ uploader chunk, r = .registerChunk uploader chunk ∧ c.Miscomposed uploader chunk ∧
          e = miscomposition chunk.fileHash ∧ next = c.unstage uploader chunk.fileHash) ∧
      (∀ (later : List Request) (last : Request), (∀ q ∈ later, q.IgnoresStaging) → last.IgnoresStaging →
        (next.after later).answer last =
          (((c.after later).answer last).1, ((c.after later).answer last).2.withStaged next.staged)) ∧
      ∀ later : List Request, GoesOn c (c.after later) ∧ GoesOn c (next.after later) := by
  intro c
  have h : HistorySound c := historySound_after requests
  have hcases := answer_error hfails
  have hstaged : next = c.withStaged next.staged := by
    rcases hcases with ⟨rfl, _⟩ | ⟨uploader, chunk, _, _, _, rfl⟩ <;> rfl
  have hnext : HistorySound next := by
    have hleft : (c.answer r).2 = next := congrArg Prod.snd hfails
    exact hleft ▸ historySound_step (answer_step c r) h
  refine ⟨hcases, fun later last hlater hlast => ?_, fun later => ⟨goesOn_after h later, ?_⟩⟩
  · have hafter : next.after later = (c.after later).withStaged next.staged := by
      rw [hstaged]
      exact after_withStaged next.staged hlater
    rw [hafter, answer_withStaged next.staged hlast]
  · -- The tables that are numbered are those of `c`.
    have hgoes := goesOn_after hnext later
    rw [hstaged] at hgoes
    rw [hstaged]
    exact ⟨hgoes.projects, hgoes.commits, hgoes.revisions⟩

/-- Two uploaders have staged the first of two blocks of a file when one of them stages the second, and the file is
none of these blocks. -/
theorem reachable_failure_first :
    let chunk (index : Int) : Chunk := ⟨"file", index, "block", 1, 2, .epoch⟩
    let requests : List Request :=
      [.putBlock ⟨"block", "blocks/block", 1, .epoch⟩, .registerChunk "ann" (chunk 0), .registerChunk "bob" (chunk 0)]
    let c := Catalog.empty.after requests
    let next := c.unstage "ann" "file"
    c.answer (.registerChunk "ann" (chunk 1)) = (.error (miscomposition "file"), next) ∧
      c.Miscomposed "ann" (chunk 1) ∧ c.staged = [⟨"ann", chunk 0⟩, ⟨"bob", chunk 0⟩] ∧
      next.staged = [⟨"bob", chunk 0⟩] ∧
      ∀ later : List Request, GoesOn c (c.after later) ∧ GoesOn c (next.after later) := by
  intro chunk requests c next
  have hwhole : ((c.stagedWith "ann" (chunk 1)).length : Int) = 2 := by
    rw [stagedWith, stagedFor, List.length_mergeSort]
    decide +kernel
  have hmis : c.Miscomposed "ann" (chunk 1) :=
    ⟨⟨by decide, by decide +kernel, by decide +kernel⟩, hwhole, by decide +kernel⟩
  have hfails : c.answer (.registerChunk "ann" (chunk 1)) = (.error (miscomposition "file"), next) :=
    registerChunk_miscomposed hmis
  exact ⟨hfails, hmis, by decide +kernel, by decide +kernel, (reachable_failure requests hfails).2.2⟩

end Depot.Catalog
