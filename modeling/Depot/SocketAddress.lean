import Depot.Text.Hex

/-!
# Socket addresses

An address of the Internet protocol, of version 4 or 6, with a port: `127.0.0.1:8080` or `[::1]:8080`.

- `SocketAddress.parse?`: the address of a text.
- `SocketAddress.text`: its one written form.
-/

namespace Depot

inductive SocketAddress where
  | v4 (octets : List Nat) (port : Nat)
  /-- Eight groups of sixteen bits; the zone is zero where there is none. -/
  | v6 (groups : List Nat) (zone port : Nat)
  deriving DecidableEq, Repr

namespace SocketAddress

abbrev Chars := List Char

/-! ## Reading -/

/-- A number below `bound` of at most `width` digits; a leading zero is refused unless `padded` says so. -/
def number? (base width bound : Nat) (padded : Bool) (text : Chars) : Option (Nat × Chars) :=
  let digits := text.takeWhile fun c => (Text.Hex.digit? c).any (· < base)
  let value := digits.foldl (fun n c => base * n + (Text.Hex.digit? c).getD 0) 0
  if digits.isEmpty ∨ width < digits.length ∨ bound ≤ value then none
  else if !padded ∧ digits.head? = some '0' ∧ 1 < digits.length then none
  else some (value, text.drop digits.length)

def skip? (c : Char) : Chars → Option Chars
  | d :: rest => if c = d then some rest else none
  | [] => none

def octets? (text : Chars) : Option (List Nat × Chars) := do
  let (a, rest) ← number? 10 3 256 false text
  let (b, rest) ← number? 10 3 256 false (← skip? '.' rest)
  let (c, rest) ← number? 10 3 256 false (← skip? '.' rest)
  let (d, rest) ← number? 10 3 256 false (← skip? '.' rest)
  some ([a, b, c, d], rest)

/-- At most `limit` groups with colons between them, and whether the last two were written as octets. -/
def groups (first : Bool) : Nat → Chars → (List Nat × Bool) × Chars
  | 0, text => (([], false), text)
  | limit + 1, text =>
    match if first then some text else skip? ':' text with
    | none => (([], false), text)
    | some start =>
      match if 0 < limit then octets? start else none with
      | some ([a, b, c, d], rest) => (([256 * a + b, 256 * c + d], true), rest)
      | _ =>
        match number? 16 4 65536 true start with
        | some (g, rest) =>
          let ((more, octets), rest) := groups false limit rest
          ((g :: more, octets), rest)
        | none => (([], false), text)

/-- Eight groups, or fewer with two colons in place of those that are zero. -/
def address6? (text : Chars) : Option (List Nat × Chars) := do
  let ((head, octets), rest) := groups true 8 text
  if head.length = 8 then some (head, rest)
  else if octets then none
  else
    let rest ← skip? ':' (← skip? ':' rest)
    let ((tail, _), rest) := groups true (7 - head.length) rest
    some (head ++ List.replicate (8 - head.length - tail.length) 0 ++ tail, rest)

def port? (text : Chars) : Option Nat := do
  let rest ← skip? ':' text
  match number? 10 rest.length 65536 true rest with
  | some (port, []) => some port
  | _ => none

def zone? (text : Chars) : Option (Nat × Chars) :=
  match text with
  | '%' :: rest => number? 10 rest.length UInt32.size true rest
  | text => some (0, text)

def parse? (text : String) : Option SocketAddress :=
  match text.toList with
  | '[' :: rest => do
    let (groups, rest) ← address6? rest
    let (zone, rest) ← zone? rest
    some (v6 groups zone (← port? (← skip? ']' rest)))
  | chars => do
    let (octets, rest) ← octets? chars
    some (v4 octets (← port? rest))

/-! ## Writing -/

def dotted (octets : List Nat) : String := ".".intercalate (octets.map toString)

def colons (groups : List Nat) : String := ":".intercalate (groups.map Text.Hex.ofNat)

/-- How many groups are zero from the beginning on. -/
def zeros (groups : List Nat) : Nat := (groups.takeWhile (· == 0)).length

/-- Where the longest run of zeros begins, and how long it is; of equal ones the first. -/
def longestRun (groups : List Nat) : Nat × Nat :=
  (List.range groups.length).foldl (fun best start =>
    let length := zeros (groups.drop start)
    if best.2 < length then (start, length) else best) (0, 0)

def text6 (groups : List Nat) : String :=
  match groups with
  | [0, 0, 0, 0, 0, 65535, a, b] => "::ffff:" ++ dotted [a / 256, a % 256, b / 256, b % 256]
  | groups =>
    let (start, length) := longestRun groups
    if length ≤ 1 then colons groups
    else colons (groups.take start) ++ "::" ++ colons (groups.drop (start + length))

def text : SocketAddress → String
  | v4 octets port => s!"{dotted octets}:{port}"
  | v6 groups zone port =>
    let address := text6 groups
    if zone = 0 then s!"[{address}]:{port}" else s!"[{address}%{zone}]:{port}"

end SocketAddress

end Depot
