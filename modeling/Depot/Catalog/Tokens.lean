import Depot.Catalog.Rows

/-!
# Tokens

- No two tokens share an identifier or a hash; a token is revoked at most once and never removed.
- `listTokens` goes by the text of the time of making.
- The marker names the token that was made from the configuration.
-/

namespace Depot.Catalog

open Time

def token? (c : Catalog) (tokenId : Uuid) : Option Token :=
  c.tokens.find? fun t => t.tokenId == tokenId

def tokenByHash? (c : Catalog) (tokenHash : String) : Option Token :=
  c.tokens.find? fun t => t.tokenHash == tokenHash

def createToken (c : Catalog) (token : Token) : Except StoreError (Unit × Catalog) :=
  if c.tokens.any fun t => t.tokenId == token.tokenId || t.tokenHash == token.tokenHash then
    .error (Violation.unique.classify s!"token {token.tokenId}")
  else .ok ((), { c with tokens := c.tokens ++ [token] })

/-- Changes the token with an identifier. -/
def modifyToken (c : Catalog) (tokenId : Uuid) (change : Token → Token) : Catalog :=
  { c with tokens := c.tokens.map fun t => if t.tokenId = tokenId then change t else t }

def touchToken (c : Catalog) (tokenId : Uuid) (usedAt : DateTime) : Catalog :=
  c.modifyToken tokenId fun t => { t with lastUsedAt := some usedAt }

/-- Revokes a token, which keeps the time of its first revocation, and tells whether it exists. -/
def revokeToken (c : Catalog) (tokenId : Uuid) (revokedAt : DateTime) : Bool × Catalog :=
  ((c.token? tokenId).isSome,
    c.modifyToken tokenId fun t => { t with revokedAt := t.revokedAt <|> some revokedAt })

/-- The text by which a time is kept and ordered. -/
def storedTime (t : DateTime) : String := (Rfc3339.render? t).getD ""

/-- All tokens, or those of one user, by the text of the time at which they were made. -/
def listTokens (c : Catalog) (userId : Option String) : List Token :=
  (c.tokens.filter fun t => userId.all fun u => t.userId == u).mergeSort fun a b =>
    decide (storedTime a.createdAt ≤ storedTime b.createdAt)

/-! ## The administrator's token -/

/-- The token that the marker names, if it names any. -/
def adminMarker (c : Catalog) : Except StoreError (Option Uuid) :=
  match c.marker.join with
  | none => .ok none
  | some text =>
    if text.isEmpty then .ok none
    else
      match Uuid.parse? text with
      | some id => .ok (some id)
      | none => .error (.internal s!"invalid admin_token_id uuid '{text}': not an identifier")

def setAdminMarker (c : Catalog) (tokenId : Uuid) : Catalog :=
  { c with marker := some (some tokenId.text) }

/-- Makes sure that the row of the marker is there. -/
def migrate (c : Catalog) : Catalog :=
  { c with marker := some c.marker.join }

end Depot.Catalog
