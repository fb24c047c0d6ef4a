import Depot.Proofs.Catalog.PrivateStaging
import Depot.Proofs.Catalog.Restore

/-!
# What a sound catalog refuses

A request to a sound catalog fails only for what it asks: something is not there, or there already, or does not fit
(`isRefusal_answer`). What would be a failure of the catalog itself does not occur.
-/

namespace Depot.Catalog

open Content Time

variable {c : Catalog} {e : StoreError}

/-- A failure that is due to what was asked. -/
def StoreError.IsRefusal : StoreError → Prop
  | .notFound _ | .alreadyExists _ | .constraint _ => True
  | .database _ | .config _ | .internal _ => False

theorem commitOr_eq_error {α : Type} {result : Except StoreError (α × Catalog)} (h : (c.commitOr result).1 = .error e) :
    result = .error e := by
  match result with
  | .ok (value, next) => cases h
  | .error failure =>
    cases h
    rfl

theorem isRefusal_deleteBlock {blockHash : String} (h : c.deleteBlock blockHash = .error e) : e.IsRefusal := by
  unfold deleteBlock at h
  split at h
  · cases h
  · split at h
    · cases h
      exact trivial
    · cases h

theorem isRefusal_registerChunk (h : ContentSound c) {uploader : String} {k : Chunk}
    (he : (c.registerChunk uploader k).1 = .error e) : e.IsRefusal := by
  by_cases hfile : c.listChunks k.fileHash = []
  · unfold registerChunk promote at he
    rw [hfile] at he
    split at he
    · cases he
      exact trivial
    · dsimp only at he
      split at he
      · cases he
        exact trivial
      · split at he
        · cases he
        · split at he <;> cases he
          exact trivial
  · have hanswered := answered_registerChunk h hfile uploader
    by_cases hsame : Matches (c.listChunks k.fileHash) k
    · rw [hanswered.same hsame] at he
      cases he
    · obtain ⟨detail, hdetail⟩ := hanswered.other hsame
      rw [hdetail] at he
      cases he
      exact trivial

theorem isRefusal_createProject {teamId title createdBy : String} {createdAt : DateTime}
    (h : c.createProject teamId title createdBy createdAt = .error e) : e.IsRefusal := by
  unfold createProject at h
  split at h <;> cases h
  exact trivial

theorem isRefusal_createCommit {draft : CommitDraft} (h : c.createCommit draft = .error e) : e.IsRefusal := by
  cases hproject : c.project? draft.projectId with
  | none =>
    rw [createCommit, insertCommit, hproject] at h
    cases h
    exact trivial
  | some project =>
    rw [createCommit_eq c draft (by simp [hproject])] at h
    split at h <;> cases h

theorem isRefusal_restoreCommit (h : HistorySound c) {projectId target : Int} {authorId comment : String}
    {createdAt : DateTime} (he : (c.answer (.restoreCommit projectId target authorId comment createdAt)).1 = .error e) :
    e.IsRefusal := by
  cases hfound : c.commit? projectId target with
  | none =>
    rw [answer_restoreCommit_none authorId comment createdAt hfound] at he
    cases he
    exact trivial
  | some found =>
    obtain ⟨_, commit, rows, _, hanswer, _⟩ := answer_restoreCommit h authorId comment createdAt hfound
    rw [hanswer] at he
    cases he

theorem isRefusal_setProjectPermission {userId : String} {projectId : Int} {level : AccessLevel} {updatedAt : DateTime}
    (h : c.setProjectPermission userId projectId level updatedAt = .error e) : e.IsRefusal := by
  unfold setProjectPermission at h
  split at h
  · cases h
  · split at h <;> cases h
    exact trivial

theorem isRefusal_createToken {token : Token} (h : c.createToken token = .error e) : e.IsRefusal := by
  unfold createToken at h
  split at h <;> cases h
  exact trivial

/-- **A request to a sound catalog fails only for what it asks.** The name of the administrator's token is the one
thing that is read back and may be ill-formed. -/
theorem isRefusal_answer (h : HistorySound c) (hcontent : ContentSound c) {r : Request} (hr : r ≠ .adminMarker)
    (he : (c.answer r).1 = .error e) : e.IsRefusal := by
  cases r with
  | deleteBlock blockHash => exact isRefusal_deleteBlock (commitOr_eq_error he)
  | registerChunk uploader k => exact isRefusal_registerChunk hcontent he
  | createProject teamId title createdBy createdAt => exact isRefusal_createProject (commitOr_eq_error he)
  | createCommit draft => exact isRefusal_createCommit (commitOr_eq_error he)
  | restoreCommit projectId target authorId comment createdAt => exact isRefusal_restoreCommit h he
  | setProjectPermission userId projectId level updatedAt =>
    exact isRefusal_setProjectPermission (commitOr_eq_error he)
  | createToken token => exact isRefusal_createToken (commitOr_eq_error he)
  | adminMarker => exact absurd rfl hr
  | _ => cases he

end Depot.Catalog
