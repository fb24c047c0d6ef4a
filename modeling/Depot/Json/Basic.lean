import Depot.Text.Hex

/-!
# JSON values

- `Json`: a value as it was written: members keep their order and their repetitions, and a number
  written as a whole number that fits a 64-bit word, signed or unsigned, is kept apart from the others.
- `render`: the text without blanks.
-/

namespace Depot

inductive Json where
  | null
  | bool (value : Bool)
  /-- A whole number from `-2 ^ 63` to `2 ^ 64 - 1` in digits alone. -/
  | int (value : Int)
  /-- Any other number, as it was written. -/
  | decimal (text : String)
  | str (value : String)
  | arr (items : List Json)
  | obj (members : List (String × Json))
  /-- A string or an object that is delimited well but spells text that does not exist, such as half
  of a surrogate pair. It can be skipped and cannot be read. -/
  | garbled
  deriving Repr, Inhabited, BEq

namespace Json

/-- The absent value is written as `null`. -/
def ofOption (encode : α → Json) : Option α → Json
  | none => null
  | some value => encode value

def ofNat (n : Nat) : Json := int n

def ofList (encode : α → Json) (items : List α) : Json := arr (items.map encode)

def str? : Json → Option String
  | str value => some value
  | _ => none

def bool? : Json → Option Bool
  | bool value => some value
  | _ => none

/-- A whole number between two bounds. -/
def intBetween? (low high : Int) : Json → Option Int
  | int value => if low ≤ value ∧ value ≤ high then some value else none
  | _ => none

/-- A signed 64-bit number. -/
def int64? (json : Json) : Option Int :=
  json.intBetween? Int64.minValue.toInt Int64.maxValue.toInt

/-- A natural number below `2 ^ bits`. -/
def word? (bits : Nat) (json : Json) : Option Nat :=
  (json.intBetween? 0 (1 <<< bits - 1 : Nat)).map Int.toNat

/-- An array whose items can all be read. -/
def list? (read : Json → Option α) : Json → Option (List α)
  | arr items => items.mapM read
  | _ => none

/-- `null`, or a value. -/
def nullable? (read : Json → Option α) : Json → Option (Option α)
  | null => some none
  | json => (read json).map some

/-! ## Writing -/

/-- A character of a string: quotes, backslashes and control characters are escaped. -/
def escape (c : Char) : List Char :=
  if c = '"' then ['\\', '"']
  else if c = '\\' then ['\\', '\\']
  else if c.toNat = 8 then ['\\', 'b']
  else if c = '\t' then ['\\', 't']
  else if c = '\n' then ['\\', 'n']
  else if c.toNat = 12 then ['\\', 'f']
  else if c = '\r' then ['\\', 'r']
  else if c.toNat < 32 then ['\\', 'u', '0', '0'] ++ Text.Hex.byte c.toNat.toUInt8
  else [c]

/-- A string between quotes. -/
def quote (s : String) : String :=
  "\"" ++ String.ofList (s.toList.flatMap escape) ++ "\""

mutual

/-- The text of a value without blanks. -/
def render : Json → String
  | null => "null"
  | bool value => if value then "true" else "false"
  | int value => toString value
  | decimal text => text
  | str value => quote value
  | arr items => "[" ++ ",".intercalate (renderItems items) ++ "]"
  | obj members => "\x7b" ++ ",".intercalate (renderMembers members) ++ "\x7d"
  | garbled => "null"

def renderItems : List Json → List String
  | [] => []
  | item :: rest => render item :: renderItems rest

def renderMembers : List (String × Json) → List String
  | [] => []
  | (name, value) :: rest => (quote name ++ ":" ++ render value) :: renderMembers rest

end

end Json

end Depot
