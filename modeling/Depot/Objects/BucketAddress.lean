import Depot.SocketAddress
import Depot.Text.Percent

/-!
# Addresses of buckets

- `ServiceAddress`: where a service is reached.
- `ServiceAddress.ofBucket`: where a bucket of the service is reached. It is named in the host if its name can
  be part of one, else in the path.
-/

namespace Depot.Objects

/-- The parts of the address of a service. -/
structure ServiceAddress where
  scheme : String
  /-- The name or number of the host, and perhaps a port. -/
  host : String
  /-- Empty, or a slash and what follows it. -/
  path : String
  deriving DecidableEq, Repr

namespace ServiceAddress

def defaultRegion : String := "us-east-1"

def ofRegion (region : String) : ServiceAddress := ⟨"https", s!"s3.{region}.amazonaws.com", ""⟩

/-- The address that a text spells; without a scheme it is reached without encryption. -/
def parse (text : String) : ServiceAddress :=
  let (scheme, rest) := match text.splitOn "://" with
    | scheme :: first :: more => (scheme, "://".intercalate (first :: more))
    | _ => ("http", text)
  let chars := rest.toList
  ⟨scheme, String.ofList (chars.takeWhile (· != '/')), String.ofList (chars.dropWhile (· != '/'))⟩

/-- Whether the host is given by its number. -/
def isNumeric (a : ServiceAddress) : Bool :=
  match a.host.toList with
  | '[' :: _ => true
  | chars => (SocketAddress.octets? (chars.takeWhile (· != ':'))).any fun r => r.2.isEmpty

/-! ## Buckets -/

def isLabelEnd (c : Char) : Bool := c.isLower || c.isDigit

/-- Three to 63 small letters, digits and hyphens, with no hyphen at an end. -/
def isLabel (name : List Char) : Bool :=
  3 ≤ name.length && name.length ≤ 63 && (name.all fun c => isLabelEnd c || c == '-') &&
    name.head?.any isLabelEnd && name.getLast?.any isLabelEnd

/-- Whether a bucket can be named in the host: a certificate does not cover names with dots. -/
def canHost (a : ServiceAddress) (bucket : String) : Bool :=
  !a.isNumeric &&
    if a.scheme = "http" then (bucket.toList.splitOn '.').all isLabel else isLabel bucket.toList

/-- The bytes of a name that stand for themselves. -/
def isPlain (b : UInt8) : Bool := Text.Percent.isAlphanumeric b || [45, 46, 95, 126].contains b

/-- The address of a bucket, without a slash at its end; `inPath` forces it into the path. -/
def ofBucket (a : ServiceAddress) (bucket : String) (inPath : Bool) : String :=
  let path := String.ofList (a.path.toList.reverse.dropWhile (· == '/')).reverse
  if !inPath && a.canHost bucket then s!"{a.scheme}://{bucket}.{a.host}{path}"
  else s!"{a.scheme}://{a.host}{path}/{Text.Percent.encode isPlain bucket}"

end ServiceAddress

end Depot.Objects
