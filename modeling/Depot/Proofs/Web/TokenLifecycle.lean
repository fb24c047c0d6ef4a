import Depot.AdminToken
import Depot.Proofs.Catalog.Tokens
import Depot.Proofs.Web.Administration

/-!
# The life of a token

- `Job`: a request that is answered, or making sure of the administrator's token. Any number of jobs run at once.
- `Dependable` stores: the catalog carries all calls out, whatever the object store does.
- `token_lifecycle`: what becomes of tokens in every run of jobs, and what a request is answered at any moment of the
  run.
-/

namespace Depot.Web

open Catalog Service Text Time

/-- A request that arrives, with what its answer needs besides the stores: the clock is read once for whose token it
presents, and then by what the request asks for. -/
structure Arrival where
  tally : Tally
  clock : Clock
  fresh : Fresh
  request : Request

/-- The answer to a request. -/
def Arrival.answer (server : Server) (a : Arrival) : CallTask (Outcome × Tally) :=
  server.respond a.tally a.clock a.fresh a.request

/-- What a server does beside others. -/
inductive Job where
  | request (a : Arrival)
  | provision (config : Config.Admin) (now : DateTime) (fresh : Uuid)

/-- What a job does; what it ends with is left out. -/
def Job.task (server : Server) : Job → CallTask Unit
  | request a => discard (a.answer server)
  | provision config now fresh =>
    discard ((AdminToken.ensure config now fresh).run.mapCalls Call.catalog fun _ reply => reply)

/-- The catalog carries every call out. The object store may reply anything, and be left as anything. -/
inductive Dependable : Answers where
  | catalog {r : Catalog.Request} {s : Stores} :
    Dependable (.catalog r) s (s.catalog.answer r).1 { s with catalog := (s.catalog.answer r).2 }
  | objects {r : Objects.Request} {s : Stores} (reply : Except Objects.ObjectError r.Reply)
    (left : Objects.ObjectStore) : Dependable (.objects r) s reply { s with objects := left }

theorem dependable_of_healthy (call : Call) (s : Stores) (reply : call.Reply) (next : Stores)
    (h : Healthy call s reply next) : Dependable call s reply next := by
  cases call with
  | catalog r =>
    cases h
    exact .catalog
  | objects r =>
    cases h
    exact .objects _ _

variable {ι α : Type} [DecidableEq ι] {w v : Crowd ι α}

theorem exists_requests (h : Crowd.Steps Dependable w v) :
    ∃ requests, v.stores.catalog = w.stores.catalog.after requests := by
  induction h with
  | refl => exact ⟨[], rfl⟩
  | tail _ hlast ih =>
    obtain ⟨requests, hrequests⟩ := ih
    cases hlast with
    | call waits answered =>
      cases answered with
      | @catalog r => exact ⟨requests ++ [r], by rw [Catalog.after_append, ← hrequests]; rfl⟩
      | objects reply left => exact ⟨requests, hrequests⟩

/-- The request is accompanied by a token that is active and an administrator's. -/
def Accompanied (c : Catalog) (a : Arrival) : Prop :=
  ∃ t, presented? c a.request = some t ∧ t.isActive (a.clock 0) = true ∧ t.isAdmin = true

/-- **In every run of requests and provisions, a token changes only by being used and by being revoked, at one time.
From when it is over, a request with its secret is answered that it is unauthorized, and does nothing. Below the
administrators' path a request without an active administrator's token is refused, and does nothing but record that
its token was used.** -/
theorem token_lifecycle (server : Server) (jobs : ι → Job) (requests : List Catalog.Request)
    (objects : Objects.ObjectStore) {w v : Crowd ι Unit}
    (hw : Crowd.Steps Dependable ⟨⟨Catalog.empty.after requests, objects⟩, fun i => (jobs i).task server⟩ w)
    (hv : Crowd.Steps Dependable w v) :
    TokensAge w.stores.catalog v.stores.catalog ∧
      (∀ t ∈ w.stores.catalog.tokens, ∀ since, t.IsOver since →
        ∀ (a : Arrival) (secret : String), since.instant ≤ (a.clock 0).instant → Presents a.request secret →
          tokenHash secret = t.tokenHash →
            Fares (fun _ => False) (Answered (· = 401)) v.stores.catalog (a.answer server)) ∧
      ∀ a : Arrival, IsUnderAdmin a.request.path → ¬Accompanied v.stores.catalog a →
        Fares (IsUse v.stores.catalog a.request (a.clock 0)) (Answered (IsRefusal a.request)) v.stores.catalog
          (a.answer server) := by
  obtain ⟨before, hbefore⟩ := exists_requests hw
  obtain ⟨since, hsince⟩ := exists_requests hv
  have hsound : TokensSound v.stores.catalog := by
    rw [hsince, hbefore]
    exact tokensSound_after (tokensSound_after (tokensSound_after tokensSound_empty _) _) _
  have hages : TokensAge w.stores.catalog v.stores.catalog := hsince ▸ tokensAge_after _ since
  refine ⟨hages, fun t ht since hover a secret hclock hpresents hhash => ?_, fun a hpath hordinary => ?_⟩
  · obtain ⟨later, hlater, hage⟩ := hages.mem ht
    have hpresented : presented? v.stores.catalog a.request = some later := by
      have hsame : tokenHash secret = later.tokenHash := by rw [hhash, hage.same]
      rw [presented?, hpresents.bearer?_eq, Option.bind_some, hsame, hsound.tokenByHash?_of_mem hlater]
    exact fares_respond_inactive server a.tally a.fresh hpresented (hover.inactive hage hclock)
  · refine fares_respond_admin server a.tally a.fresh hpath fun t ht hactive => ?_
    by_contra hadmin
    exact hordinary ⟨t, ht, hactive, by simpa using hadmin⟩

/-- A token is made and revoked, the administrator's is made sure of, and then the revoked one is presented. -/
theorem token_lifecycle_revoked :
    let server : Server := ⟨⟨2, 60, 1⟩, false⟩
    let token : Token := ⟨.ofNat 1, "ann", tokenHash "key", true, none, none, .epoch, none, none⟩
    let requests : List Catalog.Request := [.createToken token, .revokeToken (.ofNat 1) .epoch]
    let job : Job := .provision ⟨String.ofList (List.replicate 64 'a'), "root", none⟩ .epoch (.ofNat 2)
    let w : Crowd Unit Unit :=
      ⟨⟨Catalog.empty.after requests, .files ⟨⟨[]⟩, [], ⟨[], ""⟩, [], 0⟩⟩, fun _ => job.task server⟩
    let a : Arrival := ⟨.zero, fun _ => .epoch, ⟨.ofNat 3, .replicate 32 0⟩,
      ⟨.get, "/v1/health", "", [("authorization", utf8 "BEARER key")], []⟩⟩
    Crowd.Steps Dependable w (w.alone ()) ∧
      ∃ ending, Answered (· = 401) ending ∧
        Task.run Stores.answer (a.answer server) (w.alone ()).stores = (ending, (w.alone ()).stores) := by
  intro server token requests job w a
  have hsteps : Crowd.Steps Dependable w (w.alone ()) := Crowd.steps_mono dependable_of_healthy (Crowd.steps_alone w ())
  have htokens : w.stores.catalog.tokens = [{ token with revokedAt := some .epoch }] := rfl
  have hpresents : Presents a.request "key" := ⟨printable_of_all (by decide), "BEARER".toList, by decide, rfl⟩
  obtain ⟨_, hover, _⟩ := token_lifecycle server (fun _ => job) requests _ .refl hsteps
  have hrefused := hover _ (htokens ▸ List.mem_singleton_self _) .epoch (.inl rfl) a "key" (Int.le_refl _) hpresents rfl
  exact ⟨hsteps, hrefused.run_eq⟩

end Depot.Web
