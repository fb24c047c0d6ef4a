import Depot.Catalog.Request
import Depot.Config.Server
import Depot.Task
import Depot.Text.Blank

/-!
# The administrator's token

`ensure` sees to it that the token whose hash the configuration gives is there and that the
marker names it. A new hash takes the place of the old one: the token that the marker named is revoked
before the new one is made.
-/

namespace Depot.AdminToken

open Catalog Time

/-- A task whose calls go to the catalog. -/
abbrev CatalogTask := Task Catalog.Request fun r => Except StoreError r.Reply

inductive Failure where
  | malformedHash
  | emptyUser
  | revoked (tokenId : Uuid)
  | expired (tokenId : Uuid) (expiresAt : DateTime)
  | notAdmin (tokenId : Uuid)
  | store (cause : StoreError)

/-- A time as diagnostics show it: the hour without padding, at least one digit of a fraction, and the
distance from UTC with seconds. -/
def describeTime (t : DateTime) : String :=
  let pad (width n : Nat) := String.ofList (Rfc3339.padded width n)
  let year := (if t.date.year < 0 then "-" else "") ++ pad 4 t.date.year.natAbs
  let fraction := if t.time.nano = 0 then ".0" else String.ofList (Rfc3339.fraction t.time.nano)
  let sign := if t.offset < 0 then "-" else "+"
  let minutes := t.offset.natAbs
  s!"{year}-{pad 2 t.date.month}-{pad 2 t.date.day} {t.time.hour}:{pad 2 t.time.minute}:" ++
    s!"{pad 2 t.time.second}{fraction} {sign}{pad 2 (minutes / 60)}:{pad 2 (minutes % 60)}:00"

def Failure.message : Failure → String
  | malformedHash => "invalid admin token_hash: expected 64 hex chars"
  | emptyUser => "admin user_id must not be empty"
  | revoked tokenId => s!"admin token hash matches a revoked token (id={tokenId}); use a new token hash"
  | expired tokenId expiresAt =>
    s!"admin token hash matches an expired token (id={tokenId}, expired={describeTime expiresAt}); " ++
      "use a new token hash"
  | notAdmin tokenId => s!"admin token hash matches a non-admin token (id={tokenId})"
  | store cause => cause.message

/-- The hash of the configuration as tokens keep it: in lower case and without `sha256:`. -/
def configuredHash? (given : String) : Option String :=
  let start := "sha256:".toList
  let digits := if start.isPrefixOf given.toList then given.toList.drop start.length else given.toList
  if digits.length = 64 ∧ digits.all fun c => (Text.Hex.digit? c).isSome then
    some (String.ofList (digits.map Char.toLower))
  else none

abbrev Step := ExceptT Failure CatalogTask

/-- One call to the catalog, whose failure ends the task. -/
def ask (r : Catalog.Request) : Step r.Reply := do
  match ← (Task.ask r : CatalogTask _) with
  | .ok reply => return reply
  | .error e => throw (.store e)

/-- Checks a token that already has the configured hash. -/
def checkExisting (token : Token) (now : DateTime) : Except Failure Unit := do
  if token.revokedAt.isSome then throw (.revoked token.tokenId)
  match token.expiresAt with
  | some e => if e.instant ≤ now.instant then throw (.expired token.tokenId e)
  | none => pure ()
  if !token.isAdmin then throw (.notAdmin token.tokenId)

/-- Makes the token of the configuration, or confirms it; `fresh` is the identifier of a new one. -/
def ensure (config : Config.Admin) (now : DateTime) (fresh : Uuid) : Step Unit := do
  let some hash := configuredHash? config.tokenHash | throw .malformedHash
  if (Text.trim config.userId).isEmpty then throw .emptyUser
  match ← ask (.getTokenByHash hash) with
  | some token =>
    checkExisting token now
    ask (.setAdminMarker token.tokenId)
  | none =>
    if let some previous ← ask .adminMarker then
      discard (ask (.revokeToken previous now))
    ask (.createToken
      { tokenId := fresh, userId := config.userId, tokenHash := hash, isAdmin := true, expiresAt := none
        revokedAt := none, createdAt := now, lastUsedAt := none, description := config.tokenDescription })
    ask (.setAdminMarker fresh)

end Depot.AdminToken
