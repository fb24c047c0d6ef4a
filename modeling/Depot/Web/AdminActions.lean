import Depot.Text.Base64
import Depot.Text.Blank
import Depot.Web.ProjectActions

/-!
# Requests of administrators

Tokens are made, listed and revoked, and permissions are set, by callers whose token is an administrator's.

- `TokenOrder`: what is asked of a new token.
- `Grant`: what permission a user is to have.
-/

namespace Depot.Web

open Service Time

/-- What is asked of a new token. -/
structure TokenOrder where
  userId : String
  isAdmin : Bool
  /-- Seconds for which the token is good. -/
  lifetime : Option Nat
  description : Option String

def TokenOrder.ofJson? (json : Json) : Option TokenOrder := do
  let m ← Json.Members.of? ["user_id", "is_admin", "expires_in_secs", "description"] json
  some ⟨← m.required? "user_id" Json.str?, ← m.defaulted? "is_admin" false Json.bool?,
    ← m.optional? "expires_in_secs" (Json.word? 64), ← m.optional? "description" Json.str?⟩

/-- What permission a user is to have; the level `none` takes it away. -/
structure Grant where
  userId : String
  level : AccessLevel

def Grant.ofJson? (json : Json) : Option Grant := do
  let m ← Json.Members.of? ["user_id", "level"] json
  some ⟨← m.required? "user_id" Json.str?, ← m.required? "level" AccessLevel.ofJson?⟩

/-- Values made by chance for one request. -/
structure Fresh where
  tokenId : Uuid
  secret : Vector UInt8 32

namespace Action

variable (caller? : Option Caller) (now : DateTime) (r : Request)

/-- Fails unless an administrator calls. -/
def requireAdmin : Except Failure Unit := do
  (← requireCaller caller?).requireAdmin

/-- When a token that is made now expires. The end may lie outside the calendar. -/
def tokenExpiry (now : DateTime) : Option Nat → Except Failure (Option DateTime)
  | none => .ok none
  | some seconds =>
    if Int64.maxValue.toInt < seconds then .error (.badRequest s!"expires_in_secs too large: {seconds}")
    else
      match now.add? seconds 0 with
      | some t => .ok (some t)
      | none => .error (.service .outOfCalendar)

def createToken (fresh : Fresh) : Action Reply := do
  ofExcept (requireAdmin caller?)
  let order ← ofExcept (readJson r TokenOrder.ofJson?)
  if (Text.trim order.userId).isEmpty then throw (.badRequest "user_id is required")
  let secret := Text.Base64.encode fresh.secret.toList
  let expiresAt ← ofExcept (tokenExpiry now order.lifetime)
  catalog (.createToken
    { tokenId := fresh.tokenId, userId := order.userId, tokenHash := tokenHash secret, isAdmin := order.isAdmin
      expiresAt, revokedAt := none, createdAt := now, lastUsedAt := none, description := order.description })
  return .tokenMade fresh.tokenId secret expiresAt

/-- The tokens of one user if the query names one, else all. -/
def listTokens : Action Reply := do
  let userId ← ofExcept ((Form.parse r.query).optional "user_id" some)
  ofExcept (requireAdmin caller?)
  return .tokens (← catalog (.listTokens userId))

def revokeToken (id : String) : Action Reply := do
  let text ← ofExcept (Parameter.text id)
  ofExcept (requireAdmin caller?)
  let some tokenId := Uuid.parse? text | throw (.badRequest "invalid token ID: not an identifier")
  if !(← catalog (.revokeToken tokenId now)) then throw (.notFound s!"token {tokenId}")
  return .done

def setProjectGrant (project : String) : Action Reply := do
  let projectId ← ofExcept (Parameter.number project)
  ofExcept (requireAdmin caller?)
  let grant ← ofExcept (readJson r Grant.ofJson?)
  if (← catalog (.getProject projectId)).isNone then throw (.notFound s!"project {projectId}")
  catalog (.setProjectPermission grant.userId projectId grant.level now)
  return .done

def setTeamGrant (team : String) : Action Reply := do
  let teamId ← ofExcept (Parameter.text team)
  ofExcept (requireAdmin caller?)
  let grant ← ofExcept (readJson r Grant.ofJson?)
  catalog (.setTeamPermission grant.userId teamId grant.level now)
  return .done

end Action

end Depot.Web
