import Depot.Digest.Sha256
import Depot.Service.Call
import Depot.Web.Failure
import Depot.Web.Message

/-!
# Who makes a request

A token is presented in the header `authorization`. A request without one goes on and may still reach what
needs none; a token that is presented has to be known and active.

- `Action`: what a request does, which ends with the first failure.
- `Caller`: the user of a token; `authenticate` finds it.
- `requireCaller`, `requireAdmin`: checks that requests share.
-/

namespace Depot.Web

open Service Time

abbrev Action := ExceptT Failure CallTask

namespace Action

/-- A call whose failure the request sees. -/
def attempt (c : Call) : Action c.Reply := ExceptT.lift (Task.ask c)

/-- A call to the catalog. -/
def catalog (r : Catalog.Request) : Action r.Reply := do
  match ← attempt (.catalog r) with
  | .ok reply => return reply
  | .error e => throw (.store e)

/-- A call to the object store. -/
def objects (r : Objects.Request) : Action r.Reply := do
  match ← attempt (.objects r) with
  | .ok reply => return reply
  | .error e => throw (.objects e)

/-- An operation of the service. -/
def operation (op : Op α) : Action α := do
  match ← (ExceptT.lift op.run : Action (Except ServiceError α)) with
  | .ok value => return value
  | .error e => throw (.service e)

/-- A check or a reading that needs no store. -/
def ofExcept : Except Failure α → Action α
  | .ok value => return value
  | .error e => throw e

end Action

structure Caller where
  tokenId : Uuid
  /-- The user whom all permissions are checked for. -/
  userId : String
  isAdmin : Bool
  deriving DecidableEq

/-- The hash by which the catalog knows a token: the SHA-256 hash of its secret. -/
def tokenHash (secret : String) : String :=
  Text.Hex.encode (Digest.Sha256.digest (Text.utf8 secret)).toList

/-- The secret behind the word `bearer`, which may be written in any letter case. -/
def bearer? (r : Request) : Option String := do
  let value ← r.header? "authorization"
  if (value.toList.take 7).map Char.toLower = "bearer ".toList then some (String.ofList (value.toList.drop 7))
  else none

/-- The caller whose token a request presents. That the token was used is recorded if it can be. -/
def authenticate (r : Request) (now : DateTime) : Action (Option Caller) := do
  let some secret := bearer? r | return none
  let some token ← Action.catalog (.getTokenByHash (tokenHash secret))
    | throw (.unauthorized "unknown token")
  if !token.isActive now then throw (.unauthorized "token expired or revoked")
  discard (Action.attempt (.catalog (.touchToken token.tokenId now)))
  return some ⟨token.tokenId, token.userId, token.isAdmin⟩

def requireCaller : Option Caller → Except Failure Caller
  | some caller => .ok caller
  | none => .error (.unauthorized "authentication required")

def Caller.requireAdmin (caller : Caller) : Except Failure Unit :=
  if caller.isAdmin then .ok () else .error (.forbidden "admin token required")

end Depot.Web
