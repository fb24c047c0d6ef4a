import Depot.Proofs.Catalog.Step

/-!
# Which rows a request changes

`Frame c r next` lists what each request can leave, by the tables that it can change, and so what it leaves as it was.
`framed` says that no request leaves anything else. What becomes of a table is then one case for each kind of change.
-/

namespace Depot.Catalog

open Time

variable {c next : Catalog} {who : String} {projectId : Int}

theorem commitOr_next {α : Type} {P : Catalog → Prop} {result : Except StoreError (α × Catalog)} (hc : P c)
    (h : ∀ value next, result = .ok (value, next) → P next) : P (c.commitOr result).2 := by
  match result with
  | .ok (value, next) => exact h value next rfl
  | .error e => exact hc

theorem putBlock_eq (c : Catalog) (block : StoredBlock) : ∃ blocks, (c.putBlock block).2 = { c with blocks } := by
  unfold putBlock
  split <;> exact ⟨_, rfl⟩

theorem deleteBlock_eq (c : Catalog) (blockHash : String) :
    ∃ blocks, (c.commitOr (c.deleteBlock blockHash)).2 = { c with blocks } := by
  unfold deleteBlock
  split
  · exact ⟨_, rfl⟩
  · split <;> exact ⟨_, rfl⟩

theorem registerChunk_eq (c : Catalog) (uploader : String) (k : Chunk) :
    ∃ chunks staged, (c.registerChunk uploader k).2 = { c with chunks, staged } := by
  have h := registered c uploader k
  generalize c.registerChunk uploader k = result at h
  cases h <;> exact ⟨_, _, rfl⟩

theorem createProject_eq_ok {teamId title createdBy : String} {createdAt : DateTime} {project : Project}
    (h : c.createProject teamId title createdBy createdAt = .ok (project, next)) :
    next = c.withProject teamId title createdBy createdAt := by
  unfold createProject at h
  split at h
  · cases h
  · cases h
    rfl

theorem setProjectPermission_eq_ok {level : AccessLevel} {updatedAt : DateTime}
    (h : c.setProjectPermission who projectId level updatedAt = .ok ((), next)) :
    ∃ granted : List ProjectGrant, (∀ g ∈ granted, g.userId = who) ∧
      next = { c with projectGrants :=
        (c.projectGrants.filter fun g => !(g.userId == who && g.projectId == projectId)) ++ granted } := by
  unfold setProjectPermission at h
  split at h
  · cases h
    exact ⟨[], by simp, by simp⟩
  · split at h
    · cases h
    · cases h
      exact ⟨_, by simp, rfl⟩

theorem setTeamPermission_eq (c : Catalog) (who teamId : String) (level : AccessLevel) (updatedAt : DateTime) :
    ∃ granted : List TeamGrant, (∀ g ∈ granted, g.userId = who) ∧
      c.setTeamPermission who teamId level updatedAt = { c with teamGrants :=
        (c.teamGrants.filter fun g => !(g.userId == who && g.teamId == teamId)) ++ granted } := by
  unfold setTeamPermission
  dsimp only
  split
  · exact ⟨[], by simp, by simp⟩
  · exact ⟨_, by simp, rfl⟩

/-- The catalog with one more token, which stands behind all others. -/
def withToken (c : Catalog) (token : Token) : Catalog := { c with tokens := c.tokens ++ [token] }

@[simp] theorem tokens_withToken (c : Catalog) (token : Token) : (c.withToken token).tokens = c.tokens ++ [token] := rfl

/-- No token has the identifier or the hash of a token. -/
def IsNew (c : Catalog) (token : Token) : Prop :=
  ∀ t ∈ c.tokens, t.tokenId ≠ token.tokenId ∧ t.tokenHash ≠ token.tokenHash

/-- A token is made behind all others, or refused because another one has its identifier or its hash. -/
theorem createToken_cases (c : Catalog) (token : Token) :
    (c.IsNew token ∧ c.createToken token = .ok ((), c.withToken token)) ∨
      (∃ t ∈ c.tokens, t.tokenId = token.tokenId ∨ t.tokenHash = token.tokenHash) ∧
        ∃ e, c.createToken token = .error e := by
  unfold createToken
  split
  · rename_i hused
    obtain ⟨t, ht, hsame⟩ := List.any_eq_true.mp hused
    exact .inr ⟨⟨t, ht, by simpa using hsame⟩, _, rfl⟩
  · rename_i hfresh
    refine .inl ⟨fun t ht => ?_, rfl⟩
    simp only [List.any_eq_true, not_exists, not_and] at hfresh
    simpa using hfresh t ht

/-- What a request can leave of a catalog. -/
inductive Frame (c : Catalog) : Request → Catalog → Prop where
  | idle {r : Request} : Frame c r c
  | recorded {block : StoredBlock} {blocks : List StoredBlock} : Frame c (.putBlock block) { c with blocks }
  | removed {blockHash : String} {blocks : List StoredBlock} : Frame c (.deleteBlock blockHash) { c with blocks }
  | registered {uploader : String} {k : Chunk} {chunks : List Chunk} {staged : List StagedChunk} :
    Frame c (.registerChunk uploader k) { c with chunks, staged }
  | founded {teamId title createdBy : String} {createdAt : DateTime} :
    Frame c (.createProject teamId title createdBy createdAt) (c.withProject teamId title createdBy createdAt)
  | committed {draft : CommitDraft} :
    Frame c (.createCommit draft) (c.withCommit (c.commitOf draft) (c.rowsOf draft))
  | restored {projectId target : Int} {authorId comment : String} {createdAt : DateTime}
    {drafts : List RevisionDraft} {chunkCount : String → Int} :
    Frame c (.restoreCommit projectId target authorId comment createdAt)
      (c.withCommit (c.nextCommit projectId authorId comment drafts.length createdAt)
        (rowsFrom c.revisions.length (c.nextCommit projectId authorId comment drafts.length createdAt) chunkCount
          drafts))
  | grantedOnProject {who : String} {projectId : Int} {level : AccessLevel} {updatedAt : DateTime}
    {granted : List ProjectGrant} (own : ∀ g ∈ granted, g.userId = who) :
    Frame c (.setProjectPermission who projectId level updatedAt)
      { c with projectGrants :=
        (c.projectGrants.filter fun g => !(g.userId == who && g.projectId == projectId)) ++ granted }
  | grantedOnTeam {who teamId : String} {level : AccessLevel} {updatedAt : DateTime} {granted : List TeamGrant}
    (own : ∀ g ∈ granted, g.userId = who) :
    Frame c (.setTeamPermission who teamId level updatedAt)
      { c with teamGrants := (c.teamGrants.filter fun g => !(g.userId == who && g.teamId == teamId)) ++ granted }
  | tokenMade {token : Token} (new : c.IsNew token) : Frame c (.createToken token) (c.withToken token)
  | tokenUsed {tokenId : Uuid} {usedAt : DateTime} :
    Frame c (.touchToken tokenId usedAt) (c.touchToken tokenId usedAt)
  | tokenRevoked {tokenId : Uuid} {revokedAt : DateTime} :
    Frame c (.revokeToken tokenId revokedAt) (c.revokeToken tokenId revokedAt).2
  | marked {tokenId : Uuid} {marker : Option (Option String)} : Frame c (.setAdminMarker tokenId) { c with marker }
  | migrated {marker : Option (Option String)} : Frame c .migrate { c with marker }

/-- **No request leaves anything else.** -/
theorem framed (c : Catalog) (r : Request) : Frame c r (c.answer r).2 := by
  cases r with
  | putBlock block =>
    obtain ⟨_, h⟩ := putBlock_eq c block
    exact h ▸ .recorded
  | deleteBlock blockHash =>
    obtain ⟨_, h⟩ := deleteBlock_eq c blockHash
    exact h ▸ .removed
  | registerChunk uploader k =>
    obtain ⟨_, _, h⟩ := registerChunk_eq c uploader k
    exact h ▸ .registered
  | createProject teamId title createdBy createdAt =>
    apply commitOr_next .idle
    intro _ next h
    rw [createProject_eq_ok h]
    exact .founded
  | createCommit draft =>
    apply commitOr_next .idle
    intro _ next h
    obtain rfl | ⟨_, _, rfl⟩ := createCommit_eq_ok h
    · exact .idle
    · exact .committed
  | restoreCommit projectId target authorId comment createdAt =>
    apply commitOr_next .idle
    intro _ next h
    obtain ⟨_, _, _, _, _, _, rfl⟩ := restoreCommit_eq_ok h
    exact .restored
  | setProjectPermission userId projectId level updatedAt =>
    apply commitOr_next .idle
    intro _ next h
    obtain ⟨_, hgranted, rfl⟩ := setProjectPermission_eq_ok h
    exact .grantedOnProject hgranted
  | setTeamPermission userId teamId level updatedAt =>
    obtain ⟨_, hgranted, h⟩ := setTeamPermission_eq c userId teamId level updatedAt
    change Frame c _ (c.setTeamPermission userId teamId level updatedAt)
    rw [h]
    exact .grantedOnTeam hgranted
  | createToken token =>
    apply commitOr_next .idle
    intro _ next h
    obtain ⟨hnew, hmade⟩ | ⟨_, e, hrefused⟩ := createToken_cases c token
    · rw [hmade] at h
      cases h
      exact .tokenMade hnew
    · rw [hrefused] at h
      cases h
  | touchToken tokenId usedAt => exact .tokenUsed
  | revokeToken tokenId revokedAt => exact .tokenRevoked
  | setAdminMarker tokenId => exact .marked
  | migrate => exact .migrated
  | _ => exact .idle

end Depot.Catalog
