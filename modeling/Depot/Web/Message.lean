import Depot.Json.Basic
import Depot.Objects.Request
import Depot.Service.ChunkUpload

/-!
# Requests and responses

- `Request`: what a client sends; `Request.ofTarget` takes the target apart.
- `Response`: what the server answers.
- `Outcome`: how a request ends.
-/

namespace Depot.Web

inductive Method where
  | delete
  | get
  | head
  | post
  | put
  | other (name : String)
  deriving DecidableEq, Repr

namespace Method

def name : Method → String
  | delete => "DELETE"
  | get => "GET"
  | head => "HEAD"
  | post => "POST"
  | put => "PUT"
  | other name => name

/-- The method that a name stands for; letter case matters. -/
def ofName (name : String) : Method :=
  ([delete, get, head, post, put].find? fun m => m.name == name).getD (other name)

end Method

structure Request where
  method : Method
  /-- The path with its escapes. -/
  path : String
  /-- What stands behind the question mark, with its escapes. -/
  query : String
  /-- Names in lower case, and values. -/
  headers : List (String × List UInt8)
  body : List Service.Frame

namespace Request

/-- A target behind the scheme and the host that it may begin with. -/
def localPart (target : List Char) : List Char :=
  match target.dropWhile Char.isAlphanum with
  | ':' :: '/' :: '/' :: rest =>
    let path := rest.dropWhile fun c => c != '/' && c != '?'
    if path.head? = some '/' then path else '/' :: path
  | _ => target

/-- A request whose target is a path, and behind a question mark a query. -/
def ofTarget (method : Method) (target : String) (headers : List (String × List UInt8))
    (body : List Service.Frame) : Request :=
  let chars := localPart (target.toList.takeWhile (· != '#'))
  { method, headers, body
    path := String.ofList (chars.takeWhile (· != '?'))
    query := String.ofList ((chars.dropWhile (· != '?')).drop 1) }

/-- Whether a byte may stand in the text of a header. -/
def isHeaderText (b : UInt8) : Bool := (32 ≤ b && b ≤ 126) || b == 9

/-- The value of a header if it is text. -/
def header? (r : Request) (name : String) : Option String := do
  let value ← r.headers.lookup name
  if value.all isHeaderText then Text.ofUtf8? value else none

/-- Most bytes of a body that is read as a whole. -/
def longestBody : Nat := 1024 * 1024

/-- The bytes of frames, or why they cannot be read; `room` is how many more may come. -/
def collect : Nat → List Service.Frame → Except String (List UInt8)
  | _, [] => .ok []
  | _, .fault reason :: _ => .error reason
  | room, .data bytes :: rest =>
    if room < bytes.length then .error "length limit exceeded"
    else (collect (room - bytes.length) rest).map (bytes ++ ·)

/-- The body as a whole. -/
def content (r : Request) : Except String (List UInt8) := collect longestBody r.body

end Request

inductive Body where
  | empty
  | json (value : Json)
  | lines (text : List String)
  | stream (bytes : Objects.ByteStream)

structure Response where
  status : Nat
  contentType : Option String
  /-- The length that a header announces. -/
  length : Option Nat
  /-- The methods that the resource knows, where the one asked for is not among them. -/
  allow : List Method
  body : Body

namespace Response

/-- A response without a body. -/
def bare (status : Nat) : Response := ⟨status, none, none, [], .empty⟩

def ofJson (status : Nat) (value : Json) : Response := ⟨status, some "application/json", none, [], .json value⟩

end Response

/-- How a request ends: with a response, or without one because a time would fall on a day that the calendar
does not have. -/
inductive Outcome where
  | answered (response : Response)
  | brokenOff

end Depot.Web
