import Depot.Web.AdminActions
import Depot.Web.BlockActions
import Depot.Web.Tally

/-!
# The server

A request is answered in three steps: whose token it presents, which resource its path names, and what the
method does with that resource. A token that is presented and no good ends a request of any path.

- `Server.act`: the action of a method on a resource.
- `Server.respond`: the whole answer to a request, and the counts after it.
-/

namespace Depot.Web

open Service Time

/-- What is set for the server. -/
structure Server where
  settings : Settings
  metricsEnabled : Bool
  deriving DecidableEq, Repr

namespace Server

def ofConfig (config : Config.Server) : Server := ⟨.ofConfig config, config.metricsEnabled⟩

/-- The resource of a path, if the server has it. -/
def resource? (s : Server) (path : String) : Option Resource :=
  match Resource.ofPath? path with
  | some .metrics => if s.metricsEnabled then some .metrics else none
  | found => found

/-- Answers whether both stores work. -/
def checkHealth : Action Reply := do
  Action.catalog .healthCheck
  Action.objects .healthCheck
  return .healthy

variable (s : Server) (tally : Tally) (clock : Clock) (fresh : Fresh) (r : Request)

/-- What a method does with a resource; what can be read can also be asked for without its body. -/
def act (caller? : Option Caller) : Method → Resource → Action Reply
  | .get, .health | .head, .health => checkHealth
  | .post, .projects => Action.createProject caller? (clock 0) r
  | .get, .projects | .head, .projects => Action.listProjects caller?
  | .post, .commits p => Action.createCommit caller? (clock 0) r p
  | .get, .commits p | .head, .commits p => Action.listCommits s.settings caller? r p
  | .get, .commit p c | .head, .commit p c => Action.getCommit caller? p c
  | .get, .state p | .head, .state p => Action.getState caller? r p
  | .get, .diff p | .head, .diff p => Action.getDiff caller? r p
  | .post, .restore p => Action.restore caller? clock r p
  | .get, .download p | .head, .download p => Action.getDownload s.settings caller? clock r p
  | .put, .block hash => Action.uploadBlock s.settings caller? (clock 0) r hash
  | .get, .blob key | .head, .blob key => Action.getBlob (clock 0) r key
  | .post, .tokens => Action.createToken caller? (clock 0) r fresh
  | .get, .tokens | .head, .tokens => Action.listTokens caller? r
  | .delete, .token id => Action.revokeToken caller? (clock 0) id
  | .put, .projectGrants p => Action.setProjectGrant caller? (clock 0) r p
  | .put, .teamGrants t => Action.setTeamGrant caller? (clock 0) r t
  | .get, .metrics | .head, .metrics => return .metrics tally.exposition
  | _, _ => return .noSuchMethod

/-- What a request does. The first reading of the clock is that at which its token is looked at. -/
def handle : Action Reply := do
  let caller? ← authenticate r (clock 0)
  match s.resource? r.path with
  | some resource => act s tally (fun i => clock (i + 1)) fresh r caller? r.method resource
  | none => return .noSuchResource

/-- The response as it is sent: a method that the resource does not know is told those that it knows, and
`HEAD` gets no body. -/
def finish (response : Response) : Response :=
  let allow := match s.resource? r.path with
    | some resource => if r.method ∈ resource.methods then [] else resource.methods
    | none => []
  { response with allow, body := if r.method = .head then .empty else response.body }

/-- Answers a request, and the counts after it; one that breaks off is not counted. -/
def respond : CallTask (Outcome × Tally) := do
  let result ← (handle s tally clock fresh r).run
  match result with
  | .error (.service .outOfCalendar) => return (.brokenOff, tally)
  | result =>
    let response := finish s r (respondTo result)
    return (.answered response, tally.note r.method (s.resource? r.path) result response.status)

end Server

end Depot.Web
