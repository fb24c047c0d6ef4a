import Depot.Uuid

/-!
# Trace identifiers

A request carries an identifier that its records show. A client may choose it: of the first 128 characters,
those that can be printed are kept. Without any left, the request gets a fresh one.
-/

namespace Depot.Web.TraceId

/-- Most characters of an identifier. -/
def longest : Nat := 128

/-- Whether a character may be part of an identifier: the blank and the visible ones of ASCII. -/
def isKept (c : Char) : Bool := ' ' ≤ c && c ≤ '~'

/-- The identifier that a client chose. -/
def ofClient? (given : String) : Option String :=
  let kept := (given.toList.take longest).filter isKept
  if kept.isEmpty then none else some (String.ofList kept)

/-- The identifier of a request: the client's, or else a fresh one. -/
def choose (given : Option String) (fresh : Uuid) : String := (given.bind ofClient?).getD fresh.text

end Depot.Web.TraceId
