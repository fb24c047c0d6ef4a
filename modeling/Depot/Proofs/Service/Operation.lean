import Depot.Proofs.Catalog.Quiet
import Depot.Proofs.Service.UploadPhases
import Depot.Service.Download

/-!
# Runs of operations

- `Operation`: an operation with its arguments, and the user whom it concerns; a grant concerns the user who gets it.
- `makes_act`: which calls an operation makes.
- `after`: the stores after operations one after another.
- Operations keep stores sound (`sound_after`), so between them blocks that are recorded and blocks that are
  stored are the same.
- `Extends`: stored blocks and catalogued files stay (`extends_after`).
- `Apart`: what a user has staged and may do is the same. Others' operations leave it so (`apart_act`).
-/

namespace Depot.Service

open Content Time Objects

/-- An operation with its arguments. -/
inductive Operation where
  | createProject (creator teamId title : String) (now : DateTime)
  | listProjects (user : String)
  | getProject (user : String) (projectId : Int)
  | upload (request : UploadRequest) (body : List Frame) (now : DateTime)
  | commit (request : CommitRequest) (now : DateTime)
  | history (user : String) (projectId offset : Int)
  | commitDetail (user : String) (projectId commitId : Int)
  | resolveSequence (user : String) (projectId number : Int)
  | currentState (user : String) (projectId : Int)
  | stateAt (user : String) (projectId : Int) (boundary : CommitBoundary)
  | diff (user : String) (projectId : Int) (old new : CommitBoundary)
  | restore (user : String) (projectId commitId : Int) (clock : Clock)
  | resolveDownload (user : String) (projectId : Int) (path : String) (boundary : CommitBoundary) (clock : Clock)
  | grantOnProject (user : String) (projectId : Int) (level : AccessLevel) (now : DateTime)
  | grantOnTeam (user teamId : String) (level : AccessLevel) (now : DateTime)

namespace Operation

/-- The user who asks for an operation, or who is granted something. -/
def user : Operation → String
  | createProject user _ _ _ | listProjects user | getProject user _ | history user _ _ | commitDetail user _ _
  | resolveSequence user _ _ | currentState user _ | stateAt user _ _ | diff user _ _ _ | restore user _ _ _
  | resolveDownload user _ _ _ _ | grantOnProject user _ _ _ | grantOnTeam user _ _ _ => user
  | upload request _ _ => request.uploaderId
  | commit request _ => request.authorId

/-- What an operation does; its value is left out. -/
def act (settings : Settings) : Operation → Op Unit
  | createProject creator teamId title now => discard (Service.createProject creator teamId title now)
  | listProjects user => discard (Service.listProjects user)
  | getProject user projectId => discard (Service.getProject user projectId)
  | upload request body now => discard (uploadChunk settings request body now)
  | commit request now => discard (Service.commit request now)
  | history user projectId offset => discard (Service.history settings user projectId offset)
  | commitDetail user projectId commitId => discard (Service.commitDetail user projectId commitId)
  | resolveSequence user projectId number => discard (Service.resolveSequence user projectId number)
  | currentState user projectId => discard (Service.currentState user projectId)
  | stateAt user projectId boundary => discard (Service.stateAt user projectId boundary)
  | diff user projectId old new => discard (Service.diff user projectId old new)
  | restore user projectId commitId clock => discard (Service.restore user projectId commitId clock)
  | resolveDownload user projectId path boundary clock =>
    discard (Service.resolveDownload settings user projectId path boundary clock)
  | grantOnProject user projectId level now => askCatalog (.setProjectPermission user projectId level now)
  | grantOnTeam user teamId level now => askCatalog (.setTeamPermission user teamId level now)

end Operation

/-- The stores after operations that are run one after another. -/
def after (settings : Settings) : List Operation → Stores → Stores
  | [], s => s
  | op :: rest, s => after settings rest (perform (op.act settings) s).2

variable {settings : Settings} {real : Path} {s : Stores} {user : String} {op : Operation}

theorem after_append (settings : Settings) (first rest : List Operation) (s : Stores) :
    after settings (first ++ rest) s = after settings rest (after settings first s) := by
  induction first generalizing s with
  | nil => rfl
  | cons op first ih => exact ih _

/-! ### Calls of operations -/

/-- A call that changes nothing. -/
def Call.IsRead : Call → Prop
  | .catalog r => r.IsRead
  | .objects (.presign _ _ _) => True
  | .objects _ => False

theorem answer_of_isRead {call : Call} (h : call.IsRead) (s : Stores) : (s.answer call).2 = s := by
  cases call with
  | catalog r => exact congrArg (fun c => { s with catalog := c }) (Catalog.answer_of_isRead h)
  | objects r =>
    cases r with
    | presign key ttl now => obtain ⟨c, f | b⟩ := s <;> rfl
    | _ => cases h

theorem makes_persist {P : Call → Prop} {r : Nat → Catalog.Request} (h : ∀ i, P (.catalog (r i))) (number more : Nat) :
    Makes P (persist r number more) := by
  induction more generalizing number with
  | zero => exact (makes_askCatalog (h number)).bind fun _ => makes_pure _
  | succ more ih =>
    apply (makes_attempt (h number)).bind
    intro reply
    split
    · exact makes_pure _
    · exact ih (number + 1)
    · exact makes_throw _

section Calls

variable {P : Call → Prop} (hread : ∀ call : Call, call.IsRead → P call)
include hread

theorem makes_query {r : Catalog.Request} (h : r.IsRead := by exact trivial) : Makes P (askCatalog r) :=
  makes_askCatalog (hread _ h)

theorem makes_requireAccess (userId : String) (projectId : Int) (required : AccessLevel) :
    Makes P (requireAccess userId projectId required) := by
  apply (makes_query hread).bind
  intro level
  split
  · exact makes_throw _
  · exact makes_pure ()

theorem makes_resolveBoundary (projectId : Int) (boundary : CommitBoundary) :
    Makes P (resolveBoundary projectId boundary) := by
  cases boundary <;> refine (makes_query hread).bind fun commit => ?_ <;> rcases commit with _ | commit
  all_goals first | exact makes_throw _ | exact makes_pure _

theorem makes_createProject {creator teamId title : String} {now : DateTime}
    (hwrite : P (.catalog (.createProject teamId (Text.trim title) creator now))) :
    Makes P (createProject creator teamId title now) := by
  unfold createProject
  exact makes_check (makes_check ((makes_query hread).bind fun level => makes_check (makes_askCatalog hwrite)))

theorem makes_getProject (userId : String) (projectId : Int) : Makes P (getProject userId projectId) := by
  refine (makes_requireAccess hread _ _ _).bind fun _ => (makes_query hread).bind fun project => ?_
  rcases project with _ | project
  · exact makes_throw _
  · exact makes_pure _

theorem makes_commit {request : CommitRequest} {now : DateTime}
    (hwrite : P (.catalog (.createCommit (draftOf request now)))) : Makes P (commit request now) := by
  refine (makes_requireAccess hread _ _ _).bind fun _ => (makes_lift _ _).bind fun _ =>
    (makes_persist (fun _ => hwrite) _ _).bind fun ⟨_, write⟩ => ?_
  rcases write with row | hashes
  · exact makes_pure _
  · exact (makes_lift _ _).bind fun missing => makes_pure _

theorem makes_history (settings : Settings) (userId : String) (projectId offset : Int) :
    Makes P (history settings userId projectId offset) := by
  unfold history
  exact makes_check ((makes_requireAccess hread _ _ _).bind fun _ => (makes_query hread).bind fun total =>
    (makes_query hread).bind fun commits => makes_pure _)

omit hread in
theorem makes_filesOf (revisions : List Catalog.Revision) : Makes P (filesOf revisions) :=
  (makes_lift _ _).bind fun _ => makes_pure _

theorem makes_commitDetail (userId : String) (projectId commitId : Int) :
    Makes P (commitDetail userId projectId commitId) := by
  refine (makes_requireAccess hread _ _ _).bind fun _ => (makes_query hread).bind fun found => ?_
  rcases found with _ | found
  · exact makes_throw _
  · exact (makes_query hread).bind fun revisions => (makes_filesOf _).bind fun files => makes_pure _

theorem makes_resolveSequence (userId : String) (projectId number : Int) :
    Makes P (resolveSequence userId projectId number) :=
  (makes_requireAccess hread _ _ _).bind fun _ => (makes_resolveBoundary hread _ _).bind fun _ => makes_pure _

theorem makes_resolveState (projectId : Int) (boundary : CommitBoundary) :
    Makes P (resolveState projectId boundary) :=
  (makes_resolveBoundary hread _ _).bind fun _ => (makes_query hread).bind fun _ =>
    (makes_filesOf _).bind fun _ => makes_pure _

theorem makes_stateAt (userId : String) (projectId : Int) (boundary : CommitBoundary) :
    Makes P (stateAt userId projectId boundary) :=
  (makes_requireAccess hread _ _ _).bind fun _ => makes_resolveState hread _ _

theorem makes_diff (userId : String) (projectId : Int) (old new : CommitBoundary) :
    Makes P (diff userId projectId old new) :=
  (makes_requireAccess hread _ _ _).bind fun _ => (makes_resolveState hread _ _).bind fun _ =>
    (makes_resolveState hread _ _).bind fun _ => makes_pure _

theorem makes_restore {userId : String} {projectId : Int} (commitId : Int) {clock : Clock}
    (hwrite : ∀ target comment i, P (.catalog (.restoreCommit projectId target userId comment (clock i)))) :
    Makes P (restore userId projectId commitId clock) :=
  (makes_requireAccess hread _ _ _).bind fun _ => (makes_resolveBoundary hread _ _).bind fun _ =>
    (makes_persist (hwrite _ _) _ _).bind fun _ => makes_pure _

theorem makes_presignChunk (settings : Settings) (now : DateTime) (chunk : Catalog.Chunk) :
    Makes P (presignChunk settings now chunk) := by
  refine (makes_lift _ _).bind fun blockHash => (makes_askObjects (hread _ ?_)).bind fun signed => makes_pure _
  exact trivial

theorem makes_resolveDownload (settings : Settings) (userId : String) (projectId : Int) (path : String)
    (boundary : CommitBoundary) (clock : Clock) :
    Makes P (resolveDownload settings userId projectId path boundary clock) := by
  refine (makes_requireAccess hread _ _ _).bind fun _ => (makes_lift _ _).bind fun _ =>
    (makes_resolveBoundary hread _ _).bind fun commit => (makes_query hread).bind fun revision => ?_
  rcases revision with _ | revision
  · exact makes_throw _
  · refine (makes_query hread).bind fun chunks => makes_check ?_
    apply (makes_mapM fun (chunk, i) => makes_presignChunk hread settings (clock i) chunk).bind
    intro signed
    apply (makes_lift _ _).bind
    intro expiresAt
    apply (makes_lift _ _).bind
    intro contentHash
    exact makes_pure _

end Calls

/-- The calls by which an operation may change something. -/
def Operation.Changes : Operation → Call → Prop
  | createProject creator teamId title now, call =>
    call = .catalog (.createProject teamId (Text.trim title) creator now)
  | upload request _ now, call => ∃ p : Phase, call = p.call request now
  | commit request now, call => call = .catalog (.createCommit (draftOf request now))
  | restore user projectId _ clock, call =>
    ∃ target comment i, call = .catalog (.restoreCommit projectId target user comment (clock i))
  | grantOnProject user projectId level now, call =>
    call = .catalog (.setProjectPermission user projectId level now)
  | grantOnTeam user teamId level now, call => call = .catalog (.setTeamPermission user teamId level now)
  | _, _ => False

/-- **Beside calls that change nothing, an operation makes only calls of its own.** -/
theorem makes_act (settings : Settings) (op : Operation) :
    Makes (fun call => call.IsRead ∨ op.Changes call) (op.act settings) := by
  cases op with
  | createProject creator teamId title now => exact makes_discard (makes_createProject (fun _ => .inl) (.inr rfl))
  | listProjects user => exact makes_discard (makes_query fun _ => .inl)
  | getProject user projectId => exact makes_discard (makes_getProject (fun _ => .inl) user projectId)
  | upload request body now =>
    refine makes_discard ⟨(follows_uploadChunk settings request body now).only.mono fun call h => ?_⟩
    exact .inr h
  | commit request now => exact makes_discard (makes_commit (fun _ => .inl) (.inr rfl))
  | history user projectId offset => exact makes_discard (makes_history (fun _ => .inl) settings user projectId offset)
  | commitDetail user projectId commitId =>
    exact makes_discard (makes_commitDetail (fun _ => .inl) user projectId commitId)
  | resolveSequence user projectId number =>
    exact makes_discard (makes_resolveSequence (fun _ => .inl) user projectId number)
  | currentState user projectId => exact makes_discard (makes_stateAt (fun _ => .inl) user projectId .latest)
  | stateAt user projectId boundary => exact makes_discard (makes_stateAt (fun _ => .inl) user projectId boundary)
  | diff user projectId old new => exact makes_discard (makes_diff (fun _ => .inl) user projectId old new)
  | restore user projectId commitId clock =>
    exact makes_discard (makes_restore (fun _ => .inl) commitId fun target comment i => .inr ⟨target, comment, i, rfl⟩)
  | resolveDownload user projectId path boundary clock =>
    exact makes_discard (makes_resolveDownload (fun _ => .inl) settings user projectId path boundary clock)
  | grantOnProject user projectId level now => exact makes_askCatalog (.inr rfl)
  | grantOnTeam user teamId level now => exact makes_askCatalog (.inr rfl)

/-! ### Operations that leave content alone -/

/-- A call leaves blocks and chunks alone, and rights of all users but one. -/
def QuietFor (user : String) : Call → Prop
  | .catalog r => r.QuietFor user
  | .objects (.presign _ _ _) => True
  | .objects _ => False

theorem Call.IsRead.quietFor {call : Call} (h : call.IsRead) (user : String) : QuietFor user call := by
  cases call with
  | catalog r => exact Catalog.Request.IsRead.quietFor h user
  | objects r =>
    cases r with
    | presign _ _ _ => exact trivial
    | _ => cases h

theorem quiet_act (settings : Settings) (op : Operation) (h : ∀ request body now, op ≠ .upload request body now) :
    Makes (QuietFor op.user) (op.act settings) := by
  refine (makes_act settings op).mono fun call hcall => ?_
  rcases hcall with hread | hchanges
  · exact hread.quietFor _
  cases op with
  | createProject creator teamId title now => cases hchanges; exact rfl
  | upload request body now => exact absurd rfl (h request body now)
  | commit request now => cases hchanges; exact trivial
  | restore user projectId commitId clock => obtain ⟨_, _, _, rfl⟩ := hchanges; exact trivial
  | grantOnProject user projectId level now => cases hchanges; exact rfl
  | grantOnTeam user teamId level now => cases hchanges; exact rfl
  | _ => cases hchanges

/-- What operations can do that leave content alone. -/
structure Untouched (user : String) (s t : Stores) : Prop where
  objects : t.objects = s.objects
  content : Catalog.SameContent s.catalog t.catalog
  rights : ∀ other, other ≠ user → Catalog.SameRights other s.catalog t.catalog
  history : Catalog.HistorySound s.catalog → Catalog.HistorySound t.catalog

theorem untouched_answer (s : Stores) {call : Call} (h : QuietFor user call) :
    Untouched user s (s.answer call).2 := by
  cases call with
  | catalog r =>
    exact ⟨rfl, Catalog.sameContent_answer h, fun _ hne => Catalog.sameRights_answer h hne,
      Catalog.historySound_step (Catalog.answer_step _ r)⟩
  | objects r =>
    cases r with
    | presign key ttl now =>
      refine ⟨?_, .refl _, fun _ _ => .refl _ _, id⟩
      obtain ⟨c, f | b⟩ := s <;> rfl
    | _ => cases h

theorem Untouched.trans {t w : Stores} (h : Untouched user s t) (hnext : Untouched user t w) : Untouched user s w :=
  ⟨hnext.objects.trans h.objects, h.content.trans hnext.content,
    fun other hne => (h.rights other hne).trans (hnext.rights other hne), hnext.history ∘ h.history⟩

theorem Untouched.refl (user : String) (s : Stores) : Untouched user s s := ⟨rfl, .refl _, fun _ _ => .refl _ _, id⟩

theorem untouched_act (settings : Settings) (op : Operation) (h : ∀ request body now, op ≠ .upload request body now)
    (s : Stores) : Untouched op.user s (perform (op.act settings) s).2 := by
  refine (quiet_act settings op h).perform_induction (I := Untouched op.user s) (fun call t hquiet ht => ?_) (.refl _ s)
  exact ht.trans (untouched_answer t hquiet)

theorem Sound.untouched {t : Stores} (hs : Sound real s) (h : Untouched user s t) : Sound real t := by
  have hobject : t.object? real = s.object? real := by
    funext g
    rw [Stores.object?, Stores.object?, h.objects]
  exact {
    files := by rw [h.objects]; exact hs.files
    content := hs.content.transfer h.content.chunks h.content.staged fun k _ hk => by
      rwa [Catalog.block?, h.content.blocks]
    history := h.history hs.history
    honest := by rw [hobject]; exact hs.honest
    recorded := by simp only [hobject, Catalog.block?, h.content.blocks]; exact hs.recorded
    blocks := by rw [hobject, h.content.blocks]; exact hs.blocks
    keys := by rw [h.content.blocks]; exact hs.keys
    chunks := by rw [hobject, h.content.chunks]; exact hs.chunks
    staged := by rw [hobject, h.content.staged]; exact hs.staged }

/-! ### Operations on sound stores -/

theorem upload_or_quiet (op : Operation) :
    (∃ request body now, op = .upload request body now) ∨ ∀ request body now, op ≠ .upload request body now := by
  cases op with
  | upload request body now => exact .inl ⟨request, body, now, rfl⟩
  | _ => exact .inr (by simp)

theorem perform_upload (settings : Settings) (request : UploadRequest) (body : List Frame) (now : DateTime)
    (s : Stores) :
    (perform ((Operation.upload request body now).act settings) s).2 =
      (perform (uploadChunk settings request body now) s).2 := by
  rw [Operation.act, perform_discard]

theorem sound_act (settings : Settings) (op : Operation) (hs : Sound real s) :
    Sound real (perform (op.act settings) s).2 := by
  rcases upload_or_quiet op with ⟨request, body, now, rfl⟩ | hquiet
  · rw [perform_upload]
    exact sound_uploadChunk hs settings request body now
  · exact hs.untouched (untouched_act settings op hquiet s)

theorem sound_after (settings : Settings) (ops : List Operation) (hs : Sound real s) :
    Sound real (after settings ops s) := by
  induction ops generalizing s with
  | nil => exact hs
  | cons op rest ih => exact ih (sound_act settings op hs)

theorem sound_fresh {f : FileStore} (hf : Fresh f real) : Sound real ⟨.empty, .files f⟩ where
  files := ⟨f, rfl, hf.blockFiles, hf.idle⟩
  content := Catalog.contentSound_empty
  history := Catalog.historySound_empty
  honest h data hobject := by cases (hf.object?_eq h).symm.trans hobject
  recorded h data hobject := by cases (hf.object?_eq h).symm.trans hobject
  blocks row hrow := by cases hrow
  keys row hrow := by cases hrow
  chunks k hk := by cases hk
  staged k hk := by cases hk

/-! ### What stays -/

/-- Stored blocks and catalogued files of some stores are in others, too, whose URLs are signed alike. -/
structure Extends (real : Path) (s t : Stores) : Prop where
  objects : ∀ h data, s.object? real h = some data → t.object? real h = some data
  files : ∀ fileHash, s.catalog.listChunks fileHash ≠ [] →
    t.catalog.listChunks fileHash = s.catalog.listChunks fileHash
  signer : ∀ f, s.objects = .files f → ∃ g, t.objects = .files g ∧ g.signer = f.signer

theorem Extends.refl (real : Path) (s : Stores) : Extends real s s :=
  ⟨fun _ _ h => h, fun _ _ => rfl, fun f h => ⟨f, h, rfl⟩⟩

theorem Extends.trans {t w : Stores} (h : Extends real s t) (hnext : Extends real t w) : Extends real s w where
  objects g data hobject := hnext.objects g data (h.objects g data hobject)
  files fileHash hne := (hnext.files fileHash (h.files fileHash hne ▸ hne)).trans (h.files fileHash hne)
  signer f hf := by
    obtain ⟨g, hg, hsigner⟩ := h.signer f hf
    obtain ⟨k, hk, hnextSigner⟩ := hnext.signer g hg
    exact ⟨k, hk, hnextSigner.trans hsigner⟩

theorem Untouched.extends {t : Stores} (h : Untouched user s t) : Extends real s t where
  objects g data hobject := by rwa [Stores.object?, h.objects]
  files fileHash _ := by rw [Catalog.listChunks, h.content.chunks, Catalog.listChunks]
  signer f hf := ⟨f, h.objects.trans hf, rfl⟩

theorem extends_uploadChunk (hs : Sound real s) (settings : Settings) (request : UploadRequest) (body : List Frame)
    (now : DateTime) : Extends real s (perform (uploadChunk settings request body now) s).2 := by
  obtain ⟨c, f, rfl⟩ := hs.exists_files
  have h := uploaded hs settings request body now
  generalize perform (uploadChunk settings request body now) ⟨c, .files f⟩ = result at h
  cases h with
  | @rejected _ next _ _ _ leaves objects =>
    refine ⟨fun g data hobject => (objects g).trans hobject, fun _ _ => rfl, fun k hk => ?_⟩
    cases hk
    exact ⟨next, rfl, leaves.signer⟩
  | linked _ _ _ =>
    exact ⟨fun _ _ h => h, fun _ hne => Catalog.listChunks_step (Catalog.registerChunk_step _ _ _) hne,
      fun k hk => ⟨k, hk, rfl⟩⟩
  | @stored data next _ new _ leaves objects =>
    refine ⟨fun g old hold => ?_, fun fileHash hne => ?_, fun k hk => ?_⟩
    · apply (objects g).trans
      rw [if_neg]
      · exact hold
      · rintro rfl
        have hrecorded := hs.recorded _ _ hold
        rw [new] at hrecorded
        cases hrecorded
    · exact Catalog.listChunks_step (c := withBlock c request now) (Catalog.registerChunk_step _ _ _) hne
    · cases hk
      exact ⟨next, rfl, leaves.signer⟩
  | _ => exact .refl real _

theorem extends_act (settings : Settings) (op : Operation) (hs : Sound real s) :
    Extends real s (perform (op.act settings) s).2 := by
  rcases upload_or_quiet op with ⟨request, body, now, rfl⟩ | hquiet
  · rw [perform_upload]
    exact extends_uploadChunk hs settings request body now
  · exact (untouched_act settings op hquiet s).extends

theorem extends_after (settings : Settings) (ops : List Operation) (hs : Sound real s) :
    Extends real s (after settings ops s) := by
  induction ops generalizing s with
  | nil => exact .refl real s
  | cons op rest ih => exact (extends_act settings op hs).trans (ih (sound_act settings op hs))

/-! ### What others leave alone -/

theorem sameRights_uploadChunk (hs : Sound real s) (settings : Settings) (request : UploadRequest) (body : List Frame)
    (now : DateTime) (user : String) :
    Catalog.SameRights user s.catalog (perform (uploadChunk settings request body now) s).2.catalog := by
  obtain ⟨c, f, rfl⟩ := hs.exists_files
  have h := uploaded hs settings request body now
  generalize perform (uploadChunk settings request body now) ⟨c, .files f⟩ = result at h
  cases h with
  | linked _ _ _ => exact Catalog.sameRights_registerChunk c request.uploaderId (chunkOf request now) user
  | stored _ _ _ _ _ =>
    have h := Catalog.sameRights_registerChunk (withBlock c request now) request.uploaderId (chunkOf request now) user
    exact ⟨h.onProjects, h.onTeams, h.projects⟩
  | _ => exact .refl user _

/-- A user has the same rights and has staged the same. -/
structure Apart (user : String) (s t : Stores) : Prop where
  rights : Catalog.SameRights user s.catalog t.catalog
  staged : ∀ fileHash, t.catalog.stagedFor user fileHash = s.catalog.stagedFor user fileHash

theorem staged_uploadChunk (hs : Sound real s) (settings : Settings) (request : UploadRequest) (body : List Frame)
    (now : DateTime) (hne : user ≠ request.uploaderId) (fileHash : String) :
    (perform (uploadChunk settings request body now) s).2.catalog.stagedFor user fileHash =
      s.catalog.stagedFor user fileHash := by
  obtain ⟨c, f, rfl⟩ := hs.exists_files
  have h := uploaded hs settings request body now
  generalize perform (uploadChunk settings request body now) ⟨c, .files f⟩ = result at h
  cases h with
  | linked _ _ _ => exact Catalog.stagedFor_registerChunk_of_ne hne
  | stored _ _ _ _ _ => exact Catalog.stagedFor_registerChunk_of_ne (c := withBlock c request now) hne
  | _ => rfl

theorem apart_act (settings : Settings) (op : Operation) (hs : Sound real s) (hne : user ≠ op.user) :
    Apart user s (perform (op.act settings) s).2 := by
  rcases upload_or_quiet op with ⟨request, body, now, rfl⟩ | hquiet
  · rw [perform_upload]
    exact ⟨sameRights_uploadChunk hs settings request body now user,
      staged_uploadChunk hs settings request body now hne⟩
  · have h := untouched_act settings op hquiet s
    exact ⟨h.rights user hne, fun fileHash => by rw [Catalog.stagedFor, h.content.staged, Catalog.stagedFor]⟩

theorem sameRights_after (settings : Settings) {ops : List Operation} (hothers : ∀ op ∈ ops, user ≠ op.user)
    (hs : Sound real s) : Catalog.SameRights user s.catalog (after settings ops s).catalog := by
  induction ops generalizing s with
  | nil => exact .refl user _
  | cons op rest ih =>
    exact (apart_act settings op hs (hothers op List.mem_cons_self)).rights.trans
      (ih (fun other hother => hothers other (List.mem_cons_of_mem _ hother)) (sound_act settings op hs))

/-! ### What all requests keep -/

theorem perform_induction {ε α : Type} {I : Catalog → Prop} (hstep : ∀ c next, Catalog.Step c next → I c → I next)
    (op : ExceptT ε CallTask α) (hs : I s.catalog) : I (perform op s).2.catalog := by
  unfold perform
  generalize op.run = task
  induction task generalizing s with
  | done value => exact hs
  | call request resume ih =>
    apply ih _
    cases request with
    | catalog r => exact hstep _ _ (Catalog.answer_step _ r) hs
    | objects r => exact hs

theorem after_induction {I : Catalog → Prop} (hstep : ∀ c next, Catalog.Step c next → I c → I next)
    (settings : Settings) (ops : List Operation) (hs : I s.catalog) : I (after settings ops s).catalog := by
  induction ops generalizing s with
  | nil => exact hs
  | cons op rest ih => exact ih (perform_induction hstep (op.act settings) hs)

end Depot.Service
