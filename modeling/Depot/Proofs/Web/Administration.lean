import Depot.Proofs.Outcome
import Depot.Proofs.Web.Callers
import Depot.Web.Server

/-!
# Requests that only administrators may make

- `IsUnderAdmin`: the paths that are kept for administrators. They name no other resources (`isAdmin_of_ofPath?`).
- `WellFormed`: the method, the path and the query of a request can be read.
- `Denied`: how a request ends whose caller is no administrator. One that can be read is refused for its caller.
- Such a request makes no calls but that by which the use of its token is recorded (`fares_respond_admin`), and one
  whose token is over makes none (`fares_respond_inactive`).
-/

namespace Depot.Web

open Service Text Time

variable {c : Catalog} {r : Request} {clock : Clock} {path : String} {resource : Resource}

/-! ### Paths -/

/-- The path below which administrators' requests are, or one below it. -/
def IsUnderAdmin (path : String) : Prop := path = "/v1/admin" ∨ ∃ rest, path = "/v1/admin/" ++ rest

/-- A resource of administrators. -/
def Resource.IsAdmin : Resource → Prop
  | .tokens | .token _ | .projectGrants _ | .teamGrants _ => True
  | _ => False

theorem splitOn_of_isUnderAdmin (h : IsUnderAdmin path) :
    ∃ parts, (path.toList.splitOn '/').map String.ofList = "" :: "v1" :: "admin" :: parts := by
  obtain rfl | ⟨rest, rfl⟩ := h
  · exact ⟨[], by decide⟩
  · have hpath : ("/v1/admin/" ++ rest).toList =
        [] ++ '/' :: (['v', '1'] ++ '/' :: (['a', 'd', 'm', 'i', 'n'] ++ '/' :: rest.toList)) := by
      rw [String.toList_append]
      rfl
    refine ⟨(rest.toList.splitOn '/').map String.ofList, ?_⟩
    rw [hpath, List.splitOn_append_cons_of_beq _ _ (by simp), List.splitOn_append_cons_of_beq _ _ (by simp),
      List.splitOn_append_cons_of_beq _ _ (by simp), List.splitOn_nil, List.splitOn_eq_singleton (by decide),
      List.splitOn_eq_singleton (by decide)]
    rfl

theorem isAdmin_of_named {part : String} {named : Resource} (h : Resource.named part named = some resource)
    (hadmin : named.IsAdmin) : resource.IsAdmin := by
  unfold Resource.named at h
  split at h <;> cases h
  exact hadmin

theorem isAdmin_of_ofParts? {parts : List String} (h : Resource.ofParts? ("admin" :: parts) = some resource) :
    resource.IsAdmin := by
  unfold Resource.ofParts? at h
  split at h
  case h_10 =>
    cases h
    exact trivial
  case h_11 | h_12 | h_13 => exact isAdmin_of_named h trivial
  case h_15 => cases h
  -- the other names are not that of administrators
  all_goals
    rename_i heq
    simp at heq

theorem isAdmin_of_ofPath? (h : IsUnderAdmin path) (hresource : Resource.ofPath? path = some resource) :
    resource.IsAdmin := by
  obtain ⟨parts, hparts⟩ := splitOn_of_isUnderAdmin h
  rw [Resource.ofPath?, hparts] at hresource
  exact isAdmin_of_ofParts? hresource

theorem resource?_of_isAdmin (s : Server) (h : Resource.ofPath? path = some resource) (hadmin : resource.IsAdmin) :
    s.resource? path = some resource := by
  rw [Server.resource?, h]
  cases resource with
  | metrics => cases hadmin
  | _ => rfl

/-! ### Well-formed requests -/

/-- The parts of the path that vary can be read, and the fields of the query that are asked for. -/
def Resource.Understood (r : Request) : Resource → Prop
  | .tokens => r.method = .post ∨ ((Form.parse r.query).optional "user_id" some).isOk
  | .token id => (Parameter.text id).isOk
  | .projectGrants project => (Parameter.number project).isOk
  | .teamGrants team => (Parameter.text team).isOk
  | _ => True

/-- The method, the path and the query of a request to administer can be read. -/
def WellFormed (r : Request) : Prop :=
  ∃ resource, Resource.ofPath? r.path = some resource ∧ r.method ∈ resource.methods ∧ resource.Understood r

theorem WellFormed.of_ofPath? (h : WellFormed r) (hresource : Resource.ofPath? r.path = some resource) :
    r.method ∈ resource.methods ∧ resource.Understood r := by
  obtain ⟨other, hother, hmethod, hunderstood⟩ := h
  rw [hresource] at hother
  cases hother
  exact ⟨hmethod, hunderstood⟩

theorem exists_why_text {part : String} {e : Failure} (h : Parameter.text part = .error e) :
    ∃ why, e = .badRequest why := by
  unfold Parameter.text at h
  split at h <;> cases h
  exact ⟨_, rfl⟩

theorem exists_why_number {part : String} {e : Failure} (h : Parameter.number part = .error e) :
    ∃ why, e = .badRequest why := by
  unfold Parameter.number at h
  cases htext : Parameter.text part with
  | error e' =>
    rw [htext] at h
    cases h
    exact exists_why_text htext
  | ok digits =>
    rw [htext, ok_bind] at h
    split at h <;> cases h
    exact ⟨_, rfl⟩

theorem exists_why_optional {α : Type} {form : Form} {name : String} {read : String → Option α} {e : Failure}
    (h : form.optional name read = .error e) : ∃ why, e = .badRequest why := by
  unfold Form.optional at h
  split at h
  · cases h
  · split at h <;> cases h
    exact ⟨_, rfl⟩
  · cases h
    exact ⟨_, rfl⟩

/-! ### Refusals -/

/-- How a request ends whose caller is no administrator. -/
inductive Denied (r : Request) : Except Failure Reply → Prop where
  | unauthorized (why : String) : Denied r (.error (.unauthorized why))
  | forbidden (why : String) : Denied r (.error (.forbidden why))
  | malformed (why : String) (unread : ¬WellFormed r) : Denied r (.error (.badRequest why))
  | noSuchMethod (unread : ¬WellFormed r) : Denied r (.ok .noSuchMethod)
  | noSuchResource (unread : ¬WellFormed r) : Denied r (.ok .noSuchResource)

/-- The status of a refusal. If nothing else is wrong with the request, it is one for its caller. -/
def IsRefusal (r : Request) (status : Nat) : Prop :=
  400 ≤ status ∧ status < 500 ∧ (WellFormed r → status = 401 ∨ status = 403)

theorem Denied.isRefusal {result : Except Failure Reply} (h : Denied r result) :
    IsRefusal r (respondTo result).status := by
  cases h with
  | unauthorized why =>
    change IsRefusal r 401
    exact ⟨by decide, by decide, fun _ => .inl rfl⟩
  | forbidden why =>
    change IsRefusal r 403
    exact ⟨by decide, by decide, fun _ => .inr rfl⟩
  | malformed why unread =>
    change IsRefusal r 400
    exact ⟨by decide, by decide, fun h => absurd h unread⟩
  | noSuchMethod unread => exact ⟨by decide, by decide, fun h => absurd h unread⟩
  | noSuchResource unread => exact ⟨by decide, by decide, fun h => absurd h unread⟩

/-- An action that is denied, and makes no calls. -/
def Refuses (r : Request) (action : Action Reply) : Prop := ∃ result, Denied r result ∧ action.run = .done result

theorem Refuses.confined {P : Call → Prop} {action : Action Reply} (h : Refuses r action) :
    Confined P (Denied r) action.run := by
  obtain ⟨result, hdenied, hrun⟩ := h
  rw [hrun]
  exact hdenied

/-- A caller who is no administrator. -/
def IsOrdinary (caller? : Option Caller) : Prop := ∀ caller, caller? = some caller → caller.isAdmin = false

section Actions

variable {caller? : Option Caller} {α : Type} {next : α → Action Reply}

theorem refuses_requireAdmin (h : IsOrdinary caller?) {next : Unit → Action Reply} :
    Refuses r (Action.ofExcept (Action.requireAdmin caller?) >>= next) := by
  cases caller? with
  | none => exact ⟨_, .unauthorized "authentication required", rfl⟩
  | some caller =>
    have hordinary : Action.requireAdmin (some caller) = .error (.forbidden "admin token required") := by
      simp [Action.requireAdmin, requireCaller, Caller.requireAdmin, h caller rfl]
    rw [hordinary]
    exact ⟨_, .forbidden "admin token required", rfl⟩

theorem refuses_reading {x : Except Failure α} (hbad : ∀ e, x = .error e → ∃ why, e = .badRequest why)
    (hread : WellFormed r → x.isOk) (hnext : ∀ a, Refuses r (next a)) : Refuses r (Action.ofExcept x >>= next) := by
  cases x with
  | error e =>
    obtain ⟨why, rfl⟩ := hbad e rfl
    exact ⟨_, .malformed why fun h => absurd (hread h) (by simp [Except.isOk, Except.toBool]), rfl⟩
  | ok a => exact hnext a

theorem refuses_noSuchMethod (hresource : Resource.ofPath? r.path = some resource)
    (hmethod : r.method ∉ resource.methods) : Refuses r (return .noSuchMethod) :=
  ⟨_, .noSuchMethod fun h => hmethod (h.of_ofPath? hresource).1, rfl⟩

/-- **No action of administrators is done for others.** -/
theorem refuses_act (s : Server) (tally : Tally) (clock : Clock) (fresh : Fresh) (h : IsOrdinary caller?)
    (hresource : Resource.ofPath? r.path = some resource) (hadmin : resource.IsAdmin) :
    Refuses r (s.act tally clock fresh r caller? r.method resource) := by
  have hother (hmethod : r.method ∉ resource.methods) := refuses_noSuchMethod hresource hmethod
  have hread (hwell : WellFormed r) : resource.Understood r := (hwell.of_ofPath? hresource).2
  generalize hm : r.method = method at hother
  cases resource with
  | tokens =>
    have hlist (hm : r.method ≠ .post) : Refuses r (Action.listTokens caller? r) :=
      refuses_reading (fun e => exists_why_optional) (fun hwell => (hread hwell).resolve_left hm) fun _ =>
        refuses_requireAdmin h
    cases method with
    | post => exact refuses_requireAdmin h
    | get | head => exact hlist (by simp [hm])
    | delete | put | other => exact hother (by simp [Resource.methods])
  | token id =>
    cases method with
    | delete => exact refuses_reading (fun e => exists_why_text) hread fun _ => refuses_requireAdmin h
    | get | head | post | put | other => exact hother (by simp [Resource.methods])
  | projectGrants project =>
    cases method with
    | put => exact refuses_reading (fun e => exists_why_number) hread fun _ => refuses_requireAdmin h
    | get | head | post | delete | other => exact hother (by simp [Resource.methods])
  | teamGrants team =>
    cases method with
    | put => exact refuses_reading (fun e => exists_why_text) hread fun _ => refuses_requireAdmin h
    | get | head | post | delete | other => exact hother (by simp [Resource.methods])
  | _ => cases hadmin

theorem refuses_path (s : Server) (tally : Tally) (clock : Clock) (fresh : Fresh) (h : IsOrdinary caller?)
    (hpath : IsUnderAdmin r.path) :
    Refuses r (match s.resource? r.path with
      | some resource => s.act tally clock fresh r caller? r.method resource
      | none => return .noSuchResource) := by
  cases hresource : Resource.ofPath? r.path with
  | none =>
    have hunknown : s.resource? r.path = none := by rw [Server.resource?, hresource]
    rw [hunknown]
    refine ⟨_, .noSuchResource ?_, rfl⟩
    rintro ⟨resource, hknown, _⟩
    rw [hresource] at hknown
    cases hknown
  | some resource =>
    have hadmin := isAdmin_of_ofPath? hpath hresource
    rw [resource?_of_isAdmin s hresource hadmin]
    exact refuses_act s tally clock fresh h hresource hadmin

end Actions

/-! ### Answers -/

/-- A request ends with a response of some status. -/
def Answered (good : Nat → Prop) (ending : Outcome × Tally) : Prop :=
  ∃ response, ending.1 = .answered response ∧ good response.status

section Answers

variable {P : Call → Prop} {Q : Except Failure Reply → Prop} {good : Nat → Prop} (s : Server) (tally : Tally)
  (fresh : Fresh)

theorem fares_respond (h : Fares P Q c (s.handle tally clock fresh r).run)
    (hgood : ∀ result, Q result → result ≠ .error (.service .outOfCalendar) ∧ good (respondTo result).status) :
    Fares P (Answered good) c (s.respond tally clock fresh r) := by
  refine h.bind fun result hresult => ?_
  obtain ⟨hends, hstatus⟩ := hgood result hresult
  split
  · exact absurd rfl hends
  · exact ⟨_, rfl, hstatus⟩

/-- **A token that is over gets nothing but a refusal.** -/
theorem fares_respond_inactive {t : Catalog.Token} (hpresented : presented? c r = some t)
    (hinactive : t.isActive (clock 0) = false) :
    Fares (fun _ => False) (Answered (· = 401)) c (s.respond tally clock fresh r) := by
  have hunused (call : Call) : ¬IsUse c r (clock 0) call := by
    rintro ⟨u, hu, hactive, _⟩
    rw [hpresented] at hu
    cases hu
    rw [hinactive] at hactive
    cases hactive
  have hhandle : Fares (fun _ => False) (fun result => ∃ why, result = .error (.unauthorized why)) c
      (s.handle tally clock fresh r).run := by
    rw [Server.handle, ExceptT.run_bind]
    refine ((fares_authenticate c r (clock 0)).mono hunused).bind fun result hadmitted => ?_
    cases hadmitted with
    | anonymous silent =>
      rw [presented?, silent] at hpresented
      cases hpresented
    | refused why _ => exact ⟨why, rfl⟩
    | caller token active =>
      rw [hpresented] at token
      cases token
      rw [hinactive] at active
      cases active
  refine fares_respond s tally fresh hhandle ?_
  rintro _ ⟨why, rfl⟩
  exact ⟨fun heq => (by cases heq), rfl⟩

/-- **Who is no administrator is refused below the administrators' path.** -/
theorem fares_respond_admin (hpath : IsUnderAdmin r.path)
    (hordinary : ∀ t, presented? c r = some t → t.isActive (clock 0) = true → t.isAdmin = false) :
    Fares (IsUse c r (clock 0)) (Answered (IsRefusal r)) c (s.respond tally clock fresh r) := by
  have hhandle : Fares (IsUse c r (clock 0)) (Denied r) c (s.handle tally clock fresh r).run := by
    rw [Server.handle, ExceptT.run_bind]
    refine (fares_authenticate c r (clock 0)).bind fun result hadmitted => ?_
    cases hadmitted with
    | anonymous silent =>
      have hnobody : IsOrdinary none := nofun
      exact (refuses_path s tally (fun i => clock (i + 1)) fresh hnobody hpath).confined
    | refused why _ => exact .unauthorized why
    | caller token active =>
      refine (refuses_path s tally (fun i => clock (i + 1)) fresh ?_ hpath).confined
      rintro _ ⟨⟩
      exact hordinary _ token active
  refine fares_respond s tally fresh hhandle fun result hdenied => ⟨?_, hdenied.isRefusal⟩
  rintro rfl
  cases hdenied

end Answers

end Depot.Web
