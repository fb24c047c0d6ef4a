import Depot.Proofs.Catalog.Frame

/-!
# Requests that change no history

- `SameHistory`: two catalogs tell the same of projects, commits, rights, catalogued chunks and tokens. Blocks, staged
  chunks and the last use of tokens may differ.
- `Request.Changes`: a reply that says that something was done. Only a request that is replied so changes history
  (`answer_cases`); one that fails does not.
-/

namespace Depot.Catalog

open Content Time

variable {c d next : Catalog}

/-- A token, whenever it was last used. -/
def Token.apartFromUse (t : Token) : Token := { t with lastUsedAt := none }

/-- Two catalogs are the same but for blocks, staged chunks and the last use of tokens. -/
structure SameHistory (c next : Catalog) : Prop where
  projects : next.projects = c.projects
  commits : next.commits = c.commits
  revisions : next.revisions = c.revisions
  projectGrants : next.projectGrants = c.projectGrants
  teamGrants : next.teamGrants = c.teamGrants
  chunks : next.chunks = c.chunks
  marker : next.marker = c.marker
  tokens : next.tokens.map Token.apartFromUse = c.tokens.map Token.apartFromUse

theorem SameHistory.refl (c : Catalog) : SameHistory c c := ⟨rfl, rfl, rfl, rfl, rfl, rfl, rfl, rfl⟩

theorem SameHistory.trans (h : SameHistory c d) (hnext : SameHistory d next) : SameHistory c next where
  projects := hnext.projects.trans h.projects
  commits := hnext.commits.trans h.commits
  revisions := hnext.revisions.trans h.revisions
  projectGrants := hnext.projectGrants.trans h.projectGrants
  teamGrants := hnext.teamGrants.trans h.teamGrants
  chunks := hnext.chunks.trans h.chunks
  marker := hnext.marker.trans h.marker
  tokens := hnext.tokens.trans h.tokens

/-! ### Requests that fail -/

theorem commitOr_of_error {α : Type} {result : Except StoreError (α × Catalog)} {e : StoreError}
    (h : (c.commitOr result).1 = .error e) : (c.commitOr result).2 = c := by
  match result with
  | .ok (value, next) => cases h
  | .error failure => rfl

theorem sameHistory_registerChunk {uploader : String} {k : Chunk} {e : StoreError}
    (h : (c.registerChunk uploader k).1 = .error e) : SameHistory c (c.registerChunk uploader k).2 := by
  have hregistered := registered c uploader k
  generalize c.registerChunk uploader k = result at h hregistered
  cases hregistered with
  | outside | mismatch | unrecorded => exact .refl c
  | dropped => exact ⟨rfl, rfl, rfl, rfl, rfl, rfl, rfl, rfl⟩
  | confirmed | staged | promoted => cases h

/-- **A request that fails changes no history.** -/
theorem sameHistory_of_error {r : Request} {e : StoreError} (h : (c.answer r).1 = .error e) :
    SameHistory c (c.answer r).2 := by
  have hcommit {α : Type} {result : Except StoreError (α × Catalog)} (h : (c.commitOr result).1 = .error e) :
      SameHistory c (c.commitOr result).2 := by
    rw [commitOr_of_error h]
    exact .refl c
  cases r with
  | registerChunk uploader k => exact sameHistory_registerChunk h
  | deleteBlock | createProject | createCommit | restoreCommit | setProjectPermission | createToken => exact hcommit h
  | adminMarker => exact .refl c
  | _ => cases h

/-! ### Requests that do nothing -/

/-- A reply after which history may have changed: it says that something was done. -/
def Request.Changes : (r : Request) → r.Reply → Prop
  | .registerChunk _ _, _ | .createProject _ _ _ _, _ | .restoreCommit _ _ _ _ _, _ | .setProjectPermission _ _ _ _, _
  | .setTeamPermission _ _ _ _, _ | .createToken _, _ | .setAdminMarker _, _ | .migrate, _ => True
  | .createCommit _, write => ∃ commit, write = .committed commit
  | .revokeToken _ _, revoked => revoked = true
  | _, _ => False

theorem sameHistory_createCommit {draft : CommitDraft} {missing : List String}
    (h : (c.commitOr (c.createCommit draft)).1 = .ok (.missingContent missing)) :
    SameHistory c (c.commitOr (c.createCommit draft)).2 := by
  cases hproject : c.project? draft.projectId with
  | none =>
    obtain ⟨e, he⟩ := insertCommit_error draft.authorId draft.comment draft.revisions.length draft.createdAt hproject
    rw [createCommit, he] at h
    cases h
  | some project =>
    rw [createCommit_eq c draft (by simp [hproject])] at h ⊢
    split at h
    · cases h
    · exact .refl c

theorem sameHistory_touchToken (c : Catalog) (tokenId : Uuid) (usedAt : DateTime) :
    SameHistory c (c.touchToken tokenId usedAt) := by
  refine ⟨rfl, rfl, rfl, rfl, rfl, rfl, rfl, ?_⟩
  rw [touchToken, modifyToken, List.map_map]
  apply List.map_congr_left
  intro t _
  simp only [Function.comp_apply]
  split <;> rfl

theorem sameHistory_revokeToken {tokenId : Uuid} {revokedAt : DateTime}
    (h : (c.revokeToken tokenId revokedAt).1 = false) : SameHistory c (c.revokeToken tokenId revokedAt).2 := by
  have hother : ∀ t ∈ c.tokens, t.tokenId ≠ tokenId := by simpa [revokeToken, token?] using h
  have htokens : (c.revokeToken tokenId revokedAt).2.tokens = c.tokens := by
    refine (List.map_congr_left fun t ht => ?_).trans (List.map_id _)
    exact if_neg (hother t ht)
  exact ⟨rfl, rfl, rfl, rfl, rfl, rfl, rfl, congrArg _ htokens⟩

/-- **A request changes no history, or it succeeds and its reply says that it did.** -/
theorem answer_cases (c : Catalog) (r : Request) :
    SameHistory c (c.answer r).2 ∨ ∃ reply, (c.answer r).1 = .ok reply ∧ r.Changes reply := by
  cases hanswer : (c.answer r).1 with
  | error e => exact .inl (sameHistory_of_error hanswer)
  | ok reply =>
    cases r with
    | putBlock block =>
      obtain ⟨_, h⟩ := putBlock_eq c block
      left
      change SameHistory c (c.putBlock block).2
      rw [h]
      exact ⟨rfl, rfl, rfl, rfl, rfl, rfl, rfl, rfl⟩
    | deleteBlock blockHash =>
      obtain ⟨_, h⟩ := deleteBlock_eq c blockHash
      left
      change SameHistory c (c.commitOr (c.deleteBlock blockHash)).2
      rw [h]
      exact ⟨rfl, rfl, rfl, rfl, rfl, rfl, rfl, rfl⟩
    | createCommit draft =>
      cases reply with
      | committed commit => exact .inr ⟨.committed commit, rfl, commit, rfl⟩
      | missingContent missing => exact .inl (sameHistory_createCommit hanswer)
    | touchToken tokenId usedAt => exact .inl (sameHistory_touchToken c tokenId usedAt)
    | revokeToken tokenId revokedAt =>
      have hreply : (c.revokeToken tokenId revokedAt).1 = reply := Except.ok.inj hanswer
      cases reply with
      | true => exact .inr ⟨true, rfl, rfl⟩
      | false => exact .inl (sameHistory_revokeToken hreply)
    | registerChunk | createProject | restoreCommit | setProjectPermission | setTeamPermission | createToken
    | setAdminMarker | migrate => exact .inr ⟨reply, rfl, trivial⟩
    | _ => exact .inl (.refl c)

end Depot.Catalog
