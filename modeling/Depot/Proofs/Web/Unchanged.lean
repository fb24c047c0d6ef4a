import Depot.Proofs.Service.Changes
import Depot.Proofs.Web.TokenLifecycle

/-!
# Requests that change no history

A request changes history only if its method is one that may and its answer says that something was done: reading, and
being refused at any point for any reason, change nothing but the last use of the token that is presented.

- `Reply.SaysDone`: the answers that say so.
- `candid_act`: what changes anything about a resource says so. Reading changes nothing (`candid_act_get`).
- `read_or_refused_unchanged`
-/

namespace Depot.Web

open Catalog Service Time

variable {α : Type} {c : Catalog} {P : α → Prop} {Q : Reply → Prop}

/-! ### Steps of an action -/

theorem candid_ofExcept (x : Except Failure α) : Candid c P (Action.ofExcept x) := by
  cases x with
  | ok a => exact candid_pure a
  | error e => exact candid_throw e

theorem candid_catalog (r : Catalog.Request) : Candid c r.Changes (Action.catalog r) := by
  refine candid_call rfl fun reply => ?_
  cases reply with
  | ok value => exact ⟨⟨_, rfl⟩, fun ⟨_, heq, hchanges⟩ => ⟨value, rfl, by cases heq; exact hchanges⟩⟩
  | error e => exact ⟨⟨_, rfl⟩, nofun⟩

theorem candid_catalog_read {r : Catalog.Request} (h : ∀ value, ¬r.Changes value) :
    Candid c (fun _ => False) (Action.catalog r) :=
  (candid_catalog r).mono h

theorem candid_objects (r : Objects.Request) : Candid c (fun _ => False) (Action.objects r) := by
  refine candid_call rfl fun reply => ⟨?_, False.elim⟩
  cases reply with
  | ok value => exact ⟨_, rfl⟩
  | error e => exact ⟨_, rfl⟩

theorem candid_operation {op : Op α} (h : Candid c P op) : Candid c P (Action.operation op) := by
  refine ⟨fun s hs => ?_⟩
  rw [Action.operation, ExceptT.run_bind_lift]
  refine (h.ensures s hs).bind fun result t hresult => ?_
  rcases hresult with hsame | ⟨a, rfl, hP⟩
  · cases result with
    | ok a => exact .inl hsame
    | error e => exact .inl hsame
  · exact .inr ⟨a, rfl, hP⟩

theorem candid_operation_read {op : Op α} (h : Makes Call.IsRead op) (answer : α → Reply) :
    Candid c Q (Action.operation op >>= fun a => pure (answer a)) :=
  (candid_operation (candid_of_reads h)).andThen fun a => candid_pure (answer a)

theorem candid_authenticate (r : Request) (now : DateTime) : Candid c (fun _ => False) (authenticate r now) := by
  refine candid_of_only ?_
  have hidle (r : Catalog.Request) (h : ∀ value, ¬r.Changes value) (reply : (Call.catalog r).Reply) :
      ¬(Call.catalog r).Changes reply := by
    rintro ⟨value, _, hchanges⟩
    exact h value hchanges
  cases hsecret : bearer? r with
  | none =>
    rw [authenticate, hsecret]
    exact trivial
  | some secret =>
    rw [run_authenticate hsecret]
    refine ⟨hidle _ fun _ => id, fun reply => ?_⟩
    rcases reply with e | _ | token
    · exact trivial
    · exact trivial
    · change Only _ (letIn now (.ok (some token))).run
      cases hactive : token.isActive now with
      | false =>
        simp only [letIn, hactive]
        exact trivial
      | true =>
        simp only [letIn, hactive]
        exact ⟨hidle _ fun _ => id, fun _ => trivial⟩

/-! ### Actions -/

/-- An answer that says that something was done. -/
def Reply.SaysDone : Reply → Prop
  | .projectMade _ | .committed _ _ | .restored _ | .uploaded _ _ | .tokenMade _ _ _ | .done => True
  | _ => False

/-- The methods that only read. -/
def Method.Reads (m : Method) : Prop := m = .get ∨ m = .head

section Actions

variable (server : Server) (tally : Tally) (caller? : Option Caller) (now : DateTime) (clock : Clock) (fresh : Fresh)
  (r : Request)

theorem Action.candid_createProject : Candid c Reply.SaysDone (Action.createProject caller? now r) :=
  (candid_ofExcept _).andThen fun _ => (candid_ofExcept _).andThen fun (_, _) =>
    (candid_operation (Service.candid_createProject _ _ _ _)).map fun _ _ => trivial

theorem Action.candid_createCommit (project : String) :
    Candid c Reply.SaysDone (Action.createCommit caller? now r project) := by
  refine (candid_ofExcept _).andThen fun _ => (candid_ofExcept _).andThen fun _ =>
    (candid_ofExcept _).andThen fun (_, _) => (candid_operation (candid_commit _ _)).bind (fun outcome => ?_) ?_
  · cases outcome with
    | committed commitId sequence => exact candid_pure _
    | needsBlocks hashes => exact candid_pure _
  · rintro _ ⟨commitId, sequence, rfl⟩
    exact ⟨_, rfl, trivial⟩

theorem Action.candid_restore (project : String) : Candid c Reply.SaysDone (Action.restore caller? clock r project) :=
  (candid_ofExcept _).andThen fun _ => (candid_ofExcept _).andThen fun _ => (candid_ofExcept _).andThen fun _ =>
    (candid_operation (Service.candid_restore _ _ _ _)).map fun _ _ => trivial

theorem Action.candid_uploadBlock (settings : Settings) (hash : String) :
    Candid c Reply.SaysDone (Action.uploadBlock settings caller? now r hash) :=
  (candid_ofExcept _).andThen fun _ => (candid_ofExcept _).andThen fun _ => (candid_ofExcept _).andThen fun _ =>
    (candid_ofExcept _).andThen fun _ => (candid_ofExcept _).andThen fun _ => (candid_ofExcept _).andThen fun _ =>
    (candid_ofExcept _).andThen fun _ => (candid_ofExcept _).andThen fun _ =>
    (candid_operation (candid_uploadChunk _ _ _ _)).map fun _ _ => trivial

theorem Action.candid_createToken : Candid c Reply.SaysDone (Action.createToken caller? now r fresh) := by
  refine (candid_ofExcept _).andThen fun _ => (candid_ofExcept _).andThen fun order => candid_check ?_
  exact (candid_ofExcept _).andThen fun _ => (candid_catalog _).map fun _ _ => trivial

theorem Action.candid_revokeToken (id : String) : Candid c Reply.SaysDone (Action.revokeToken caller? now id) := by
  refine (candid_ofExcept _).andThen fun text => (candid_ofExcept _).andThen fun _ => ?_
  cases Uuid.parse? text with
  | none => exact candid_throw _
  | some tokenId =>
    refine (candid_catalog _).bind (fun revoked => candid_check (candid_pure _)) ?_
    rintro _ rfl
    exact ⟨.done, rfl, trivial⟩

theorem Action.candid_setProjectGrant (project : String) :
    Candid c Reply.SaysDone (Action.setProjectGrant caller? now r project) := by
  refine (candid_ofExcept _).andThen fun _ => (candid_ofExcept _).andThen fun _ =>
    (candid_ofExcept _).andThen fun grant => (candid_catalog_read fun _ => id).andThen fun _ => candid_check ?_
  exact (candid_catalog _).map fun _ _ => trivial

theorem Action.candid_setTeamGrant (team : String) : Candid c Reply.SaysDone (Action.setTeamGrant caller? now r team) :=
  (candid_ofExcept _).andThen fun _ => (candid_ofExcept _).andThen fun _ => (candid_ofExcept _).andThen fun _ =>
    (candid_catalog _).map fun _ _ => trivial

/-- **What can be read changes nothing.** -/
theorem candid_act_get (resource : Resource) :
    Candid c (fun _ => False) (server.act tally clock fresh r caller? .get resource) := by
  cases resource with
  | health => exact (candid_catalog_read fun _ => id).andThen fun _ => (candid_objects _).andThen fun _ => candid_pure _
  | projects =>
    exact (candid_ofExcept _).andThen fun _ =>
      candid_operation_read (@makes_query _ (fun _ => id) (.listProjects _) trivial) .projects
  | commits project =>
    exact (candid_ofExcept _).andThen fun _ => (candid_ofExcept _).andThen fun _ => (candid_ofExcept _).andThen fun _ =>
      candid_operation_read (makes_history (fun _ => id) _ _ _ _) .history
  | commit project commit =>
    exact (candid_ofExcept _).andThen fun _ => (candid_ofExcept _).andThen fun _ => (candid_ofExcept _).andThen fun _ =>
      candid_operation_read (makes_commitDetail (fun _ => id) _ _ _) .commit
  | state project =>
    exact (candid_ofExcept _).andThen fun _ => (candid_ofExcept _).andThen fun _ => (candid_ofExcept _).andThen fun _ =>
      (candid_ofExcept _).andThen fun _ => candid_operation_read (makes_stateAt (fun _ => id) _ _ _) .state
  | diff project =>
    exact (candid_ofExcept _).andThen fun _ => (candid_ofExcept _).andThen fun _ => (candid_ofExcept _).andThen fun _ =>
      (candid_ofExcept _).andThen fun _ => candid_operation_read (makes_diff (fun _ => id) _ _ _ _) .diff
  | download project =>
    exact (candid_ofExcept _).andThen fun _ => (candid_ofExcept _).andThen fun _ => (candid_ofExcept _).andThen fun _ =>
      (candid_ofExcept _).andThen fun _ => candid_check ((candid_ofExcept _).andThen fun _ =>
        candid_operation_read (makes_resolveDownload (fun _ => id) _ _ _ _ _ _) .download)
  | blob key =>
    exact (candid_ofExcept _).andThen fun _ => (candid_ofExcept _).andThen fun _ => (candid_ofExcept _).andThen fun _ =>
      (candid_objects _).andThen fun _ => (candid_objects _).andThen fun _ => (candid_objects _).andThen fun _ =>
      candid_pure _
  | tokens =>
    exact (candid_ofExcept _).andThen fun _ => (candid_ofExcept _).andThen fun _ =>
      (candid_catalog_read fun _ => id).andThen fun _ => candid_pure _
  | _ => exact candid_pure _

/-- **What changes anything about a resource says so, and no method that reads does.** -/
theorem candid_act (method : Method) (resource : Resource) :
    Candid c (fun reply => reply.SaysDone ∧ ¬method.Reads)
      (server.act tally clock fresh r caller? method resource) := by
  have hread : Candid c (fun reply => reply.SaysDone ∧ ¬method.Reads)
      (server.act tally clock fresh r caller? .get resource) :=
    (candid_act_get server tally caller? clock fresh r resource).mono fun _ => False.elim
  have hwrite {action : Action Reply} (hmethod : ¬method.Reads) (h : Candid c Reply.SaysDone action) :
      Candid c (fun reply => reply.SaysDone ∧ ¬method.Reads) action := h.mono fun _ hdone => ⟨hdone, hmethod⟩
  cases method with
  | get => exact hread
  | head =>
    have hsame : server.act tally clock fresh r caller? .head resource =
        server.act tally clock fresh r caller? .get resource := by cases resource <;> rfl
    exact hsame ▸ hread
  | post =>
    refine hwrite (by simp [Method.Reads]) ?_
    cases resource with
    | projects => exact Action.candid_createProject caller? _ r
    | commits project => exact Action.candid_createCommit caller? _ r project
    | restore project => exact Action.candid_restore caller? clock r project
    | tokens => exact Action.candid_createToken caller? _ fresh r
    | _ => exact candid_pure _
  | put =>
    refine hwrite (by simp [Method.Reads]) ?_
    cases resource with
    | block hash => exact Action.candid_uploadBlock caller? _ r _ hash
    | projectGrants project => exact Action.candid_setProjectGrant caller? _ r project
    | teamGrants team => exact Action.candid_setTeamGrant caller? _ r team
    | _ => exact candid_pure _
  | delete =>
    refine hwrite (by simp [Method.Reads]) ?_
    cases resource with
    | token id => exact Action.candid_revokeToken caller? _ id
    | _ => exact candid_pure _
  | other name => cases resource <;> exact candid_pure _

theorem candid_handle :
    Candid c (fun reply => reply.SaysDone ∧ ¬r.method.Reads) (server.handle tally clock fresh r) := by
  refine (candid_authenticate r (clock 0)).andThen fun caller? => ?_
  cases server.resource? r.path with
  | some resource => exact candid_act server tally caller? _ fresh r r.method resource
  | none => exact candid_pure _

end Actions

/-! ### Answers -/

/-- A response that names content which has to be uploaded. -/
def Response.NeedsBlocks (response : Response) : Prop :=
  ∃ fields, response.body = .json (.obj fields) ∧ fields.lookup "response" = some (.str "needs_blocks")

/-- A request is refused or fails, names content that it needs, or ends without a response. -/
def Outcome.Refuses : Outcome → Prop
  | .answered response => 400 ≤ response.status ∨ response.NeedsBlocks
  | .brokenOff => True

theorem Reply.SaysDone.succeeds {reply : Reply} (h : reply.SaysDone) :
    reply.response.status < 400 ∧ ¬reply.response.NeedsBlocks := by
  have hsuccess (status : Nat) (body : Json) : ¬(Reply.success status body).NeedsBlocks := by
    rintro ⟨_, hbody, hfield⟩
    cases hbody
    exact absurd (Json.str.inj (Option.some.inj hfield)) (by decide)
  have hmade : 201 < 400 := by decide
  cases reply with
  | projectMade | committed | restored | tokenMade => exact ⟨hmade, hsuccess _ _⟩
  | uploaded outcome size =>
    refine ⟨?_, hsuccess _ _⟩
    change (if outcome = .uploaded then 201 else 200) < 400
    split <;> decide
  | done => exact ⟨by decide, nofun⟩
  | _ => cases h

theorem needsBlocks_finish {server : Server} {r : Request} {response : Response} (h : ¬r.method.Reads)
    (hneeds : (server.finish r response).NeedsBlocks) : response.NeedsBlocks := by
  have hbody : (server.finish r response).body = response.body := if_neg fun hhead => h (.inr hhead)
  rwa [Response.NeedsBlocks, hbody] at hneeds

theorem ensures_respond (server : Server) (tally : Tally) (clock : Clock) (fresh : Fresh) (r : Request) (s : Stores) :
    Ensures Faulty
      (fun ending t => SameHistory s.catalog t.catalog ∨ ¬r.method.Reads ∧ ¬ending.1.Refuses)
      (server.respond tally clock fresh r) s := by
  refine ((candid_handle server tally clock fresh r).ensures s (.refl _)).bind fun result t hresult => ?_
  rcases hresult with hsame | ⟨reply, rfl, hdone, hmethod⟩
  · split <;> exact .inl hsame
  · obtain ⟨hstatus, hneeds⟩ := hdone.succeeds
    refine .inr ⟨hmethod, ?_⟩
    rintro (hbad | hneeded)
    · exact absurd hbad (Nat.not_le.mpr hstatus)
    · exact hneeds (needsBlocks_finish hmethod hneeded)

/-- **Reading and being refused change no history.** Whatever the stores hold and whichever calls fail, whatever a
request presents and sends: if its method only reads, or its answer is an error or names content that it needs, then
projects, commits, revisions, rights, catalogued chunks, tokens and the administrator's marker are as they were before
it, but for the last use of tokens. -/
theorem read_or_refused_unchanged (server : Server) (a : Arrival) {s t : Stores} {calls : List Call} {outcome : Outcome}
    {tally : Tally} (hrun : Runs Faulty (a.answer server) s calls (outcome, tally) t)
    (h : a.request.method = .get ∨ a.request.method = .head ∨ outcome.Refuses) :
    SameHistory s.catalog t.catalog := by
  rcases hrun.ensures (ensures_respond server a.tally a.clock a.fresh a.request s) with hsame | ⟨hmethod, hanswer⟩
  · exact hsame
  · rcases h with hget | hhead | hrefused
    · exact absurd (.inl hget) hmethod
    · exact absurd (.inr hhead) hmethod
    · exact absurd hrefused hanswer

/-- Someone whose token is active asks for a project in a team of others. The token is used, and no project is made. -/
theorem read_or_refused_unchanged_forbidden :
    let server : Server := ⟨⟨2, 60, 1⟩, false⟩
    let token : Token := ⟨.ofNat 1, "ann", tokenHash "key", false, none, none, .epoch, none, none⟩
    let s : Stores := ⟨Catalog.empty.after [.createToken token], .files ⟨⟨[]⟩, [], ⟨[], ""⟩, [], 0⟩⟩
    let a : Arrival := ⟨.zero, fun _ => .epoch, ⟨.ofNat 2, .replicate 32 0⟩,
      ⟨.post, "/v1/projects", "", [("authorization", Text.utf8 "Bearer key")],
        [.data (Text.utf8 "\x7b\"team_id\":\"team\",\"title\":\"title\"\x7d")]⟩⟩
    ∃ calls response tally t, Runs Faulty (a.answer server) s calls (.answered response, tally) t ∧
      response.status = 403 ∧ t.catalog.tokens ≠ s.catalog.tokens ∧ SameHistory s.catalog t.catalog := by
  intro server token s a
  have hworks : ∀ call s, Faulty call s (s.answer call).1 (s.answer call).2 := fun _ _ => .works rfl
  obtain ⟨calls, hrun⟩ := exists_runs hworks (a.answer server) s
  have hended : (match Task.run Stores.answer (a.answer server) s with
    | ((.answered response, _), t) => response.status == 403 && t.catalog.tokens != s.catalog.tokens
    | ((.brokenOff, _), _) => false) = true := by decide +kernel
  generalize Task.run Stores.answer (a.answer server) s = result at hrun hended
  obtain ⟨⟨outcome, tally⟩, t⟩ := result
  cases outcome with
  | brokenOff => cases hended
  | answered response =>
    obtain ⟨hstatus, hused⟩ : response.status = 403 ∧ t.catalog.tokens ≠ s.catalog.tokens := by simpa using hended
    have hrefused : (Outcome.answered response).Refuses := .inl (by omega)
    exact ⟨calls, response, tally, t, hrun, hstatus, hused,
      read_or_refused_unchanged server a hrun (.inr (.inr hrefused))⟩

end Depot.Web
