import Depot.Digest.Sha256
import Depot.Objects.Error
import Depot.Text.Percent
import Depot.Text.Quoted
import Depot.Time.Calendar

/-!
# Signed download URLs

A URL `{base}/v1/blobs/{key}?expires={second}&signature={digits}` lets whoever holds it fetch one object
until it expires. The signature is the SHA-256 hash of the secret, the key and the second, with colons
between them.

- `UrlSigner.sign`: the URL of a key.
- `UrlSigner.verify`: accepts the key, second and signature of a URL that was signed and has not expired.
-/

namespace Depot.Objects

open Time

/-- The path under which objects are served. -/
def blobRoute : String := "/v1/blobs"

/-- How long a URL is good for. -/
structure Lifetime where
  seconds : Nat
  nano : Nat
  deriving DecidableEq, Repr

def Lifetime.ofSeconds (seconds : Nat) : Lifetime := ⟨seconds, 0⟩

/-- A URL that serves one object for a limited time. -/
structure SignedUrl where
  url : String
  expiresAt : DateTime
  deriving DecidableEq

structure UrlSigner where
  secret : List UInt8
  baseUrl : String

namespace UrlSigner

/-- A signer whose base has no slash at its end. -/
def ofBase (secret : List UInt8) (base : String) : UrlSigner :=
  ⟨secret, String.ofList (base.toList.reverse.dropWhile (· == '/')).reverse⟩

/-- What is hashed. -/
def signedBytes (s : UrlSigner) (key : String) (expires : Int) : List UInt8 :=
  s.secret ++ Text.utf8 ":" ++ Text.utf8 key ++ Text.utf8 ":" ++ Text.utf8 (toString expires)

def signature (s : UrlSigner) (key : String) (expires : Int) : String :=
  Text.Hex.encode (Digest.Sha256.digest (s.signedBytes key expires)).toList

/-- The bytes of a key that stand for themselves in a URL. -/
def isPlain (b : UInt8) : Bool :=
  Text.Percent.isAlphanumeric b || b == 45 || b == 95 || b == 46 || b == 47

def url (s : UrlSigner) (key : String) (expires : Int) : String :=
  s!"{s.baseUrl}{blobRoute}/{Text.Percent.encode isPlain key}?expires={expires}&signature={s.signature key expires}"

/-- The end of a lifetime that begins at `now`; seconds are counted in 64 bits with a sign. -/
def expiry (ttl : Lifetime) (now : DateTime) : Except ObjectError DateTime :=
  if Int64.maxValue.toInt < ttl.seconds then
    .error (.config "invalid presign ttl: Source value is out of range for the target type")
  else
    match now.add? ttl.seconds ttl.nano with
    | some t => .ok t
    | none => .error .outOfCalendar

/-- The URL of a key that is good from `now` on for the lifetime. -/
def sign (s : UrlSigner) (key : String) (ttl : Lifetime) (now : DateTime) : Except ObjectError SignedUrl :=
  (expiry ttl now).map fun expiresAt => ⟨s.url key expiresAt.unixSeconds, expiresAt⟩

/-- Accepts a signature in any letter case, and no second after the one it was made for. -/
def verify (s : UrlSigner) (key : String) (expires : Int) (given : String) (now : DateTime) :
    Except ObjectError Unit :=
  if String.ofList (given.toList.map Char.toLower) ≠ s.signature key expires then .error (.invalidSignature key)
  else if expires < now.unixSeconds then .error (.expired key)
  else .ok ()

/-- A signer as diagnostics show it: without its secret. -/
def describe (s : UrlSigner) : String :=
  "UrlSigner \x7b secret: \"<redacted>\", base_url: " ++ Text.quoted s.baseUrl ++ " \x7d"

end UrlSigner

end Depot.Objects
