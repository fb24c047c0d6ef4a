import Depot.Proofs.Catalog.Ownership
import Depot.Proofs.Service.Commit
import Depot.Proofs.Service.Operation

/-!
# Who may do what

An operation asks one right of its user (`Operation.right?`). Beside its arguments (`Operation.screen`) it checks
nothing before that right, so a user who lacks it is refused with words that tell only what the user asked for.

- `authorized`: rows of a project, blocks and objects change only by operations whose user has the right to change them.
- `hidden_project_alike`: a project on which a user has no level looks the same whatever it holds, and as one that does
  not exist.
-/

namespace Depot.Service

open Content Time

/-- What a user has to be allowed for an operation. -/
inductive Right where
  | onProject (projectId : Int) (level : AccessLevel)
  | onTeam (teamId : String)
  | toUpload

namespace Right

/-- A catalog gives a user the right. -/
def Held (c : Catalog) (user : String) : Right → Prop
  | onProject projectId level => level ≤ c.projectAccess user projectId
  | onTeam teamId => AccessLevel.write ≤ c.teamAccess user teamId
  | toUpload => c.canUpload user = true

/-- How a user who lacks the right is refused. -/
def refusal : Right → ServiceError
  | onProject projectId level => .insufficientPermission s!"{level.name} access to project {projectId} required"
  | onTeam teamId => .insufficientPermission s!"write access to team {teamId} required"
  | toUpload => .insufficientPermission "write access to a project or team required to upload"

end Right

namespace Operation

/-- The right that an operation asks of its user. -/
def right? : Operation → Option Right
  | createProject _ teamId _ _ => some (.onTeam teamId)
  | upload _ _ _ => some .toUpload
  | commit request _ => some (.onProject request.projectId .write)
  | restore _ projectId _ _ => some (.onProject projectId .manage)
  | getProject _ projectId | history _ projectId _ | commitDetail _ projectId _ | resolveSequence _ projectId _
  | currentState _ projectId | stateAt _ projectId _ | diff _ projectId _ _ | resolveDownload _ projectId _ _ _ =>
    some (.onProject projectId .read)
  | listProjects _ | grantOnProject _ _ _ _ | grantOnTeam _ _ _ _ => none

/-- What is checked of the names that a new project is given. -/
def screenNames (teamId title : String) : Except ServiceError Unit :=
  if (Text.trim title).isEmpty || maxTitleBytes < (Text.trim title).utf8ByteSize then
    .error (.malformedRequest s!"project title must be 1 to {maxTitleBytes} characters")
  else if teamId.isEmpty then .error (.malformedRequest "team_id is required")
  else .ok ()

/-- What is checked of an operation's arguments before the right. -/
def screen (settings : Settings) : Operation → Except ServiceError Unit
  | createProject _ teamId title _ => screenNames teamId title
  | upload request _ _ => (request.validate settings.maxBlockSize).mapError .ofContent
  | history _ _ offset => if offset < 0 then .error (.malformedRequest "offset must not be negative") else .ok ()
  | _ => .ok ()

/-- An operation's user may add to a project: one that is made has the next number. -/
def MayAddTo (projectId : Int) (c : Catalog) : Operation → Prop
  | createProject creator teamId _ _ =>
    projectId = c.projects.length + 1 ∧ AccessLevel.write ≤ c.teamAccess creator teamId
  | commit request _ =>
    projectId = request.projectId ∧ AccessLevel.write ≤ c.projectAccess request.authorId projectId
  | restore user ownId _ _ => projectId = ownId ∧ AccessLevel.manage ≤ c.projectAccess user projectId
  | _ => False

end Operation

variable {α : Type} {s t : Stores} {settings : Settings} {op : Operation} {right : Right} {user : String}
  {projectId : Int}

/-! ### Refusals -/

theorem malformed_of_validate {request : UploadRequest} {maxBlockSize : Nat} {e : ServiceError}
    (h : (request.validate maxBlockSize).mapError .ofContent = .error e) : ∃ what, e = .malformedRequest what := by
  unfold UploadRequest.validate at h
  split at h
  · cases h
    exact ⟨_, rfl⟩
  · split at h
    · cases h
      exact ⟨_, rfl⟩
    · split at h <;> cases h
      exact ⟨_, rfl⟩

theorem malformed_of_screen {e : ServiceError} (h : op.screen settings = .error e) :
    ∃ what, e = .malformedRequest what := by
  cases op with
  | createProject creator teamId title now =>
    simp only [Operation.screen, Operation.screenNames] at h
    split at h
    · cases h
      exact ⟨_, rfl⟩
    · split at h <;> cases h
      exact ⟨_, rfl⟩
  | upload request body now =>
    simp only [Operation.screen] at h
    exact malformed_of_validate h
  | history user projectId offset =>
    simp only [Operation.screen] at h
    split at h <;> cases h
    exact ⟨_, rfl⟩
  | _ => cases h

theorem perform_createProject (creator teamId title : String) (now : DateTime) (s : Stores) :
    perform (createProject creator teamId title now) s =
      match Operation.screenNames teamId title with
      | .error e => (.error e, s)
      | .ok () =>
        if AccessLevel.write ≤ s.catalog.teamAccess creator teamId then
          perform (askCatalog (.createProject teamId (Text.trim title) creator now)) s
        else (.error (Right.onTeam teamId).refusal, s) := by
  unfold createProject Operation.screenNames
  rw [perform_check]
  split
  · rfl
  rw [perform_check]
  split
  · rfl
  rw [perform_bind_ok (perform_askCatalog_ok rfl), perform_check]
  by_cases hlevel : AccessLevel.write ≤ s.catalog.teamAccess creator teamId
  · simp [AccessLevel.canWrite, hlevel]
  · simp [AccessLevel.canWrite, hlevel, Right.refusal]

theorem perform_createProject_made {creator teamId title : String} {now : DateTime}
    (hnames : Operation.screenNames teamId title = .ok ())
    (hlevel : AccessLevel.write ≤ s.catalog.teamAccess creator teamId) :
    perform (createProject creator teamId title now) s =
      perform (askCatalog (.createProject teamId (Text.trim title) creator now)) s := by
  rw [perform_createProject, hnames]
  exact if_pos hlevel

theorem perform_screened {e : ServiceError} (h : op.screen settings = .error e) (s : Stores) :
    perform (op.act settings) s = (.error e, s) := by
  cases op with
  | createProject creator teamId title now =>
    apply perform_discard_error
    rw [perform_createProject, show Operation.screenNames teamId title = .error e from h]
  | upload request body now =>
    apply perform_discard_error
    have hlift : perform (lift .ofContent (request.validate settings.maxBlockSize)) s = (.error e, s) := by
      rw [perform_lift]
      exact congrArg (·, s) h
    rw [uploadChunk, perform_bind, hlift]
  | history user projectId offset =>
    apply perform_discard_error
    simp only [Operation.screen] at h
    unfold history
    rw [perform_check]
    split at h <;> cases h
    exact if_pos ‹_›
  | _ => cases h

theorem perform_requireAccess_refused {required : AccessLevel} {next : Unit → Op α}
    (hlacks : ¬required ≤ s.catalog.projectAccess user projectId) :
    perform (requireAccess user projectId required >>= next) s =
      (.error (Right.onProject projectId required).refusal, s) := by
  rw [perform_bind, perform_requireAccess, if_neg hlacks]
  rfl

theorem perform_history_refused {offset : Int} (hoffset : ¬offset < 0)
    (hlacks : ¬AccessLevel.read ≤ s.catalog.projectAccess user projectId) :
    perform (history settings user projectId offset) s = (.error (Right.onProject projectId .read).refusal, s) := by
  unfold history
  rw [perform_check, if_neg hoffset]
  exact perform_requireAccess_refused hlacks

theorem perform_refused (hscreen : op.screen settings = .ok ()) (hright : op.right? = some right)
    (hlacks : ¬right.Held s.catalog op.user) : perform (op.act settings) s = (.error right.refusal, s) := by
  cases op with
  | createProject creator teamId title now =>
    cases hright
    apply perform_discard_error
    rw [perform_createProject, show Operation.screenNames teamId title = .ok () from hscreen]
    exact if_neg hlacks
  | upload request body now =>
    cases hright
    apply perform_discard_error
    have hvalid : request.validate settings.maxBlockSize = .ok () := by
      simp only [Operation.screen] at hscreen
      cases hvalidate : request.validate settings.maxBlockSize with
      | ok => rfl
      | error e => rw [hvalidate] at hscreen; cases hscreen
    have hdenied : s.catalog.canUpload request.uploaderId = false := Bool.eq_false_iff.mpr hlacks
    rw [uploadChunk, perform_bind_ok (perform_lift_ok hvalid s), perform_bind_ok (perform_canUpload s _), hdenied]
    rfl
  | history user projectId offset =>
    cases hright
    apply perform_discard_error
    simp only [Operation.screen] at hscreen
    split at hscreen
    · cases hscreen
    · exact perform_history_refused ‹_› hlacks
  | listProjects | grantOnProject | grantOnTeam => cases hright
  | _ =>
    cases hright
    exact perform_discard_error (perform_requireAccess_refused hlacks)

/-- How an operation ends for a user who lacks its right. -/
def Operation.refusal (settings : Settings) (op : Operation) (right : Right) : ServiceError :=
  match op.screen settings with
  | .ok () => right.refusal
  | .error e => e

theorem perform_act_refused (hright : op.right? = some right) (hlacks : ¬right.Held s.catalog op.user) :
    perform (op.act settings) s = (.error (op.refusal settings right), s) := by
  unfold Operation.refusal
  cases hscreen : op.screen settings with
  | ok => exact perform_refused hscreen hright hlacks
  | error e => exact perform_screened hscreen s

/-! ### Rows -/

theorem sameRows_of_isRead {call : Call} (h : call.IsRead) (s : Stores) :
    Catalog.SameRows s.catalog (s.answer call).2.catalog := by
  rw [answer_of_isRead h]
  exact .refl _

theorem sameRows_answer {call : Call} (h : ∀ r, call = .catalog r → ∀ c, r.logOf? c = none) (s : Stores) :
    Catalog.SameRows s.catalog (s.answer call).2.catalog := by
  cases call with
  | catalog r => exact Catalog.sameRows_answer (h r rfl _)
  | objects r => exact .refl _

theorem sameRows_act (hcalls : ∀ call, op.Changes call → ∀ r, call = .catalog r → ∀ c, r.logOf? c = none) :
    Catalog.SameRows s.catalog (perform (op.act settings) s).2.catalog := by
  refine (makes_act settings op).perform_induction (I := fun t => Catalog.SameRows s.catalog t.catalog) ?_ (.refl _)
  intro call t hcall ht
  rcases hcall with hread | hchanges
  · exact ht.trans (sameRows_of_isRead hread t)
  · exact ht.trans (sameRows_answer (hcalls call hchanges) t)

theorem addsTo_act
    (hcalls : ∀ call, op.Changes call → ∃ r, call = .catalog r ∧ ∀ c, r.logOf? c = some projectId) :
    Catalog.AddsTo projectId s.catalog (perform (op.act settings) s).2.catalog := by
  refine (makes_act settings op).perform_induction
    (I := fun t => Catalog.AddsTo projectId s.catalog t.catalog) ?_ (.refl _ _)
  intro call t hcall ht
  rcases hcall with hread | hchanges
  · exact ht.trans ((sameRows_of_isRead hread t).addsTo projectId)
  · obtain ⟨r, rfl, hlog⟩ := hcalls call hchanges
    exact ht.trans (Catalog.addsTo_answer (hlog _))

theorem addsTo_createProject {creator teamId title : String} {now : DateTime}
    (hnames : Operation.screenNames teamId title = .ok ())
    (hlevel : AccessLevel.write ≤ s.catalog.teamAccess creator teamId) :
    Catalog.AddsTo (s.catalog.projects.length + 1) s.catalog
      (perform ((Operation.createProject creator teamId title now).act settings) s).2.catalog := by
  rw [Operation.act, perform_discard, perform_createProject_made hnames hlevel, perform_askCatalog]
  exact Catalog.addsTo_answer rfl

theorem rows_act (settings : Settings) (op : Operation) (s : Stores) :
    Catalog.SameRows s.catalog (perform (op.act settings) s).2.catalog ∨
      ∃ projectId, op.MayAddTo projectId s.catalog ∧
        Catalog.AddsTo projectId s.catalog (perform (op.act settings) s).2.catalog := by
  by_cases hrefused : ∃ e, perform (op.act settings) s = (.error e, s)
  · obtain ⟨e, he⟩ := hrefused
    rw [he]
    exact .inl (.refl _)
  have hheld (right : Right) (hright : op.right? = some right) : right.Held s.catalog op.user := by
    by_contra hlacks
    exact hrefused ⟨_, perform_act_refused hright hlacks⟩
  cases op with
  | createProject creator teamId title now =>
    have hlevel := hheld (.onTeam teamId) rfl
    cases hnames : Operation.screenNames teamId title with
    | error e =>
      have hscreen : (Operation.createProject creator teamId title now).screen settings = .error e := hnames
      exact absurd ⟨e, perform_screened hscreen s⟩ hrefused
    | ok => exact .inr ⟨_, ⟨rfl, hlevel⟩, addsTo_createProject hnames hlevel⟩
  | commit request now =>
    have hlevel := hheld (.onProject request.projectId .write) rfl
    refine .inr ⟨request.projectId, ⟨rfl, hlevel⟩, addsTo_act fun call hcall => ?_⟩
    cases hcall
    exact ⟨_, rfl, fun _ => rfl⟩
  | restore user projectId commitId clock =>
    have hlevel := hheld (.onProject projectId .manage) rfl
    refine .inr ⟨projectId, ⟨rfl, hlevel⟩, addsTo_act fun call hcall => ?_⟩
    obtain ⟨target, comment, i, rfl⟩ := hcall
    exact ⟨_, rfl, fun _ => rfl⟩
  | upload request body now =>
    refine .inl (sameRows_act fun call hcall r hr c => ?_)
    obtain ⟨p, rfl⟩ := hcall
    cases p <;> cases hr <;> rfl
  | grantOnProject user projectId level now =>
    refine .inl (sameRows_act fun call hcall r hr c => ?_)
    cases hcall
    cases hr
    rfl
  | grantOnTeam user teamId level now =>
    refine .inl (sameRows_act fun call hcall r hr c => ?_)
    cases hcall
    cases hr
    rfl
  | _ => exact .inl (sameRows_act fun call hcall => by cases hcall)

/-! ### Content -/

theorem content_act (settings : Settings) (op : Operation) (s : Stores) :
    let next := (perform (op.act settings) s).2
    (Catalog.SameContent s.catalog next.catalog ∧ next.objects = s.objects) ∨
      ∃ request body now, op = .upload request body now ∧ s.catalog.canUpload request.uploaderId = true := by
  intro next
  rcases upload_or_quiet op with ⟨request, body, now, rfl⟩ | hquiet
  · by_cases hheld : s.catalog.canUpload request.uploaderId = true
    · exact .inr ⟨request, body, now, rfl, hheld⟩
    · have hrefused : perform ((Operation.upload request body now).act settings) s = (.error _, s) :=
        perform_act_refused rfl hheld
      rw [show next = s from congrArg Prod.snd hrefused]
      exact .inl ⟨.refl _, rfl⟩
  · have h := untouched_act settings op hquiet s
    exact .inl ⟨h.content, h.objects⟩

/-! ### Owners -/

/-- A project was made in a team, and its maker owns it. -/
structure Founds (creator teamId : String) (now : DateTime) (project : Project) (c next : Catalog) : Prop where
  projects : next.projects = c.projects ++ [project]
  team : project.teamId = teamId
  grant : ⟨creator, project.projectId, AccessLevel.owner.code, now⟩ ∈ next.projectGrants
  access : (∃ requests, c = Catalog.empty.after requests) → next.projectAccess creator project.projectId = .owner

theorem createProject_eq_ok {creator teamId title : String} {now : DateTime} {project : Project}
    (h : (perform (createProject creator teamId title now) s).1 = .ok project) :
    ∃ next, s.catalog.createProject teamId (Text.trim title) creator now = .ok (project, next) ∧
      (perform (createProject creator teamId title now) s).2 = { s with catalog := next } := by
  have hperform := perform_createProject creator teamId title now s
  cases hnames : Operation.screenNames teamId title with
  | error e =>
    rw [hperform, hnames] at h
    cases h
  | ok =>
    by_cases hlevel : AccessLevel.write ≤ s.catalog.teamAccess creator teamId
    · rw [perform_createProject_made hnames hlevel, perform_askCatalog, Catalog.answer] at h ⊢
      cases hmade : s.catalog.createProject teamId (Text.trim title) creator now with
      | error e =>
        rw [hmade] at h
        cases h
      | ok made =>
        rw [hmade] at h
        cases h
        exact ⟨made.2, rfl, rfl⟩
    · simp only [hperform, hnames, if_neg hlevel] at h
      cases h

theorem founds_createProject {creator teamId title : String} {now : DateTime} {project : Project}
    (h : (perform (createProject creator teamId title now) s).1 = .ok project) :
    Founds creator teamId now project s.catalog (perform (createProject creator teamId title now) s).2.catalog := by
  obtain ⟨next, hmade, hleft⟩ := createProject_eq_ok h
  obtain rfl := Catalog.createProject_eq_ok hmade
  obtain rfl := Catalog.createProject_eq_row hmade
  rw [hleft]
  refine ⟨rfl, rfl, List.mem_append_right _ List.mem_cons_self, ?_⟩
  rintro ⟨requests, hreachable⟩
  have hsound : Catalog.HistorySound s.catalog := hreachable ▸ Catalog.historySound_after requests
  exact hsound.projectAccess_withProject _ _ _ _

/-- **Whatever an operation changes, its user may change, and without the right for the operation a user is told only
that, or that the arguments are malformed, and nothing is changed.** -/
theorem authorized (settings : Settings) (op : Operation) (s : Stores) :
    let next := (perform (op.act settings) s).2
    (Catalog.SameRows s.catalog next.catalog ∨
        ∃ projectId, op.MayAddTo projectId s.catalog ∧ Catalog.AddsTo projectId s.catalog next.catalog) ∧
      ((Catalog.SameContent s.catalog next.catalog ∧ next.objects = s.objects) ∨
        ∃ request body now, op = .upload request body now ∧ s.catalog.canUpload request.uploaderId = true) ∧
      (∀ right, op.right? = some right → ¬right.Held s.catalog op.user →
        perform (op.act settings) s = (.error (op.refusal settings right), s) ∧
          ((op.screen settings = .ok () ∧ op.refusal settings right = right.refusal) ∨
            ∃ what, op.screen settings = .error (.malformedRequest what) ∧
              op.refusal settings right = .malformedRequest what)) ∧
      ∀ creator teamId title now, op = .createProject creator teamId title now →
        ∀ project, (perform (createProject creator teamId title now) s).1 = .ok project →
          Founds creator teamId now project s.catalog next.catalog := by
  intro next
  refine ⟨rows_act settings op s, content_act settings op s, fun right hright hlacks => ?_, ?_⟩
  · refine ⟨perform_act_refused hright hlacks, ?_⟩
    unfold Operation.refusal
    cases hscreen : op.screen settings with
    | ok => exact .inl ⟨rfl, rfl⟩
    | error e =>
      obtain ⟨what, rfl⟩ := malformed_of_screen hscreen
      exact .inr ⟨what, rfl, rfl⟩
  · rintro creator teamId title now rfl project hok
    have hnext : next = (perform (createProject creator teamId title now) s).2 := by
      simp only [next, Operation.act, perform_discard]
    rw [hnext]
    exact founds_createProject hok

/-! ### Hidden projects -/

/-- Two runs of an operation on two pairs of stores are answered alike, and change nothing. -/
def AnsweredAlike (s t : Stores) (op op' : Op α) : Prop :=
  ∃ answer, perform op s = (answer, s) ∧ perform op' t = (answer, t)

theorem not_le_none {required : AccessLevel} (h : AccessLevel.read ≤ required) : ¬required ≤ AccessLevel.none := by
  cases required <;> revert h <;> decide

theorem answeredAlike_requireAccess {required : AccessLevel} {next next' : Unit → Op α}
    (hs : s.catalog.projectAccess user projectId = .none) (ht : t.catalog.projectAccess user projectId = .none)
    (hrequired : AccessLevel.read ≤ required) :
    AnsweredAlike s t (requireAccess user projectId required >>= next)
      (requireAccess user projectId required >>= next') :=
  ⟨_, perform_requireAccess_refused (hs ▸ not_le_none hrequired),
    perform_requireAccess_refused (ht ▸ not_le_none hrequired)⟩

theorem answeredAlike_history (settings : Settings) (offset : Int)
    (hs : s.catalog.projectAccess user projectId = .none) (ht : t.catalog.projectAccess user projectId = .none) :
    AnsweredAlike s t (history settings user projectId offset) (history settings user projectId offset) := by
  by_cases hoffset : offset < 0
  · refine ⟨.error (.malformedRequest "offset must not be negative"), ?_, ?_⟩
    · unfold history
      rw [perform_check, if_pos hoffset]
    · unfold history
      rw [perform_check, if_pos hoffset]
  · exact ⟨_, perform_history_refused hoffset (hs ▸ not_le_none (by decide)),
      perform_history_refused hoffset (ht ▸ not_le_none (by decide))⟩

/-- **A user without a level on a project is answered the same whatever the stores hold of it, and whether it exists or
not; and changes nothing.** -/
theorem hidden_project_alike (hs : s.catalog.projectAccess user projectId = .none)
    (ht : t.catalog.projectAccess user projectId = .none) :
    AnsweredAlike s t (getProject user projectId) (getProject user projectId) ∧
      (∀ request : CommitRequest, request.authorId = user → request.projectId = projectId →
        ∀ now now', AnsweredAlike s t (commit request now) (commit request now')) ∧
      (∀ settings offset,
        AnsweredAlike s t (history settings user projectId offset) (history settings user projectId offset)) ∧
      (∀ commitId, AnsweredAlike s t (commitDetail user projectId commitId) (commitDetail user projectId commitId)) ∧
      (∀ number, AnsweredAlike s t (resolveSequence user projectId number) (resolveSequence user projectId number)) ∧
      AnsweredAlike s t (currentState user projectId) (currentState user projectId) ∧
      (∀ boundary, AnsweredAlike s t (stateAt user projectId boundary) (stateAt user projectId boundary)) ∧
      (∀ old new, AnsweredAlike s t (diff user projectId old new) (diff user projectId old new)) ∧
      (∀ commitId clock clock',
        AnsweredAlike s t (restore user projectId commitId clock) (restore user projectId commitId clock')) ∧
      ∀ settings path boundary clock clock',
        AnsweredAlike s t (resolveDownload settings user projectId path boundary clock)
          (resolveDownload settings user projectId path boundary clock') := by
  have hread : AccessLevel.read ≤ AccessLevel.read := by decide
  refine ⟨answeredAlike_requireAccess hs ht hread, ?_,
    fun settings offset => answeredAlike_history settings offset hs ht,
    fun _ => answeredAlike_requireAccess hs ht hread, fun _ => answeredAlike_requireAccess hs ht hread,
    answeredAlike_requireAccess hs ht hread, fun _ => answeredAlike_requireAccess hs ht hread,
    fun _ _ => answeredAlike_requireAccess hs ht hread, fun _ _ _ => answeredAlike_requireAccess hs ht (by decide),
    fun _ _ _ _ _ => answeredAlike_requireAccess hs ht hread⟩
  rintro request rfl rfl now now'
  exact answeredAlike_requireAccess hs ht (by decide)

/-- Bob cannot tell Ann's project from one that was never made. -/
theorem hidden_project_alike_first :
    let objects : Objects.ObjectStore := .files ⟨⟨[]⟩, [], ⟨[], ""⟩, [], 0⟩
    let s : Stores := ⟨Catalog.empty, objects⟩
    let t : Stores := ⟨Catalog.empty.after [.createProject "team" "title" "ann" .epoch], objects⟩
    s.catalog.projectAccess "bob" 1 = .none ∧ t.catalog.projectAccess "bob" 1 = .none ∧ t.catalog.projects ≠ [] ∧
      AnsweredAlike s t (getProject "bob" 1) (getProject "bob" 1) := by
  intro objects s t
  have hs : s.catalog.projectAccess "bob" 1 = .none := rfl
  have ht : t.catalog.projectAccess "bob" 1 = .none := rfl
  exact ⟨hs, ht, by decide, (hidden_project_alike hs ht).1⟩

end Depot.Service
