import Depot.Text.Blank
import Depot.Toml.Scalar

/-!
# Settings in environment variables

A variable `HANGAR_SERVER__BIND` sets `bind` in the section `server`. Its value is read as a number, a truth
value, a string in quotes, a list or a table, and as plain text if it is none of these.

- `Variable.value`: the value that a text stands for.
- `Variable.settings`: the settings of all variables.
- `merge`: settings over settings.
-/

namespace Depot.Config

/-! ## Values -/

namespace Variable

open Toml (Chars)

def isSpace (c : Char) : Bool := c == ' ' || c == '\t' || c == '\n' || c == '\r' || c.toNat == 12

def skipSpaces (text : Chars) : Chars := text.dropWhile isSpace

/-- Whether a character ends plain text. -/
def isSeparator (c : Char) : Bool := [',', '\x7b', '\x7d', '[', ']'].contains c

/-- Whether a text is a number with a point: digits on one side of it at least, and perhaps an exponent. -/
def isDecimal (text : Chars) : Bool :=
  let unsigned := match text with
    | '+' :: rest | '-' :: rest => rest
    | text => text
  let whole := unsigned.takeWhile Char.isDigit
  match unsigned.drop whole.length with
  | '.' :: rest =>
    let fraction := rest.takeWhile Char.isDigit
    let exponent := match rest.drop fraction.length with
      | [] => some ['0']
      | e :: '+' :: power | e :: '-' :: power => if e = 'e' ∨ e = 'E' then some power else none
      | e :: power => if e = 'e' ∨ e = 'E' then some power else none
    !(whole ++ fraction).isEmpty && exponent.any fun power => !power.isEmpty && power.all Char.isDigit
  | _ => false

/-- A whole number of at most 128 bits; those of more than 64 bits fit no setting. -/
def whole? (text : Chars) : Option Json :=
  let (negative, digits) := match text with
    | '-' :: digits => (true, digits)
    | '+' :: digits => (false, digits)
    | digits => (false, digits)
  if digits.isEmpty ∨ !digits.all Char.isDigit then none
  else
    let magnitude : Nat := digits.foldl (fun n c => 10 * n + (c.toNat - 48)) 0
    let value : Int := if negative then -magnitude else magnitude
    if Int64.minValue.toInt ≤ value ∧ value < UInt64.size then some (.int value)
    else if magnitude < 1 <<< 127 ∨ value = -(1 <<< 127 : Nat) ∨ (¬ negative ∧ magnitude < 1 <<< 128) then
      some (.decimal (toString value))
    else none

/-- The value of text without quotes and brackets. -/
def plain (text : Chars) : Json :=
  let text := (Text.trim (String.ofList text)).toList
  if isDecimal text then .decimal (String.ofList text) else (whole? text).getD (.str (String.ofList text))

/-- A name in a table. -/
def name? : Chars → Option (String × Chars)
  | '"' :: rest => Toml.quoted? '"' false rest
  | text =>
    let name := text.takeWhile fun c => c.isAlphanum || c == '_' || c == '-'
    if name.isEmpty then none else some (String.ofList name, text.drop name.length)

mutual

/-- A value and what follows it and the blanks behind it; `fuel` bounds the number of values. -/
def value? : Nat → Chars → Option (Json × Chars)
  | 0, _ => none
  | fuel + 1, text =>
    let found := match skipSpaces text with
      | '\x7b' :: rest => entries? fuel [] rest
      | '[' :: rest => items? fuel [] rest
      | '"' :: rest => (Toml.quoted? '"' false rest).map fun (s, rest) => (.str s, rest)
      | '\'' :: c :: '\'' :: rest => some (.str c.toString, rest)
      | '\'' :: _ => none
      | text =>
        match Toml.literal? "true".toList text, Toml.literal? "false".toList text with
        | some rest, _ => some (.bool true, rest)
        | _, some rest => some (.bool false, rest)
        | _, _ => some (plain (text.takeWhile fun c => !isSeparator c), text.dropWhile fun c => !isSeparator c)
    match found with
    | some (value, rest) => some (value, skipSpaces rest)
    | none => none

/-- The items of a list from the next one on; `before` holds those already read, last first. -/
def items? : Nat → List Json → Chars → Option (Json × Chars)
  | 0, _, _ => none
  | fuel + 1, before, text =>
    match text with
    | ']' :: rest => some (.arr before.reverse, rest)
    | text =>
      match value? fuel text with
      | some (item, ',' :: rest) => items? fuel (item :: before) rest
      | some (item, ']' :: rest) => some (.arr (item :: before).reverse, rest)
      | _ => none

/-- The members of a table from the next one on. -/
def entries? : Nat → List (String × Json) → Chars → Option (Json × Chars)
  | 0, _, _ => none
  | fuel + 1, before, text =>
    match text with
    | '\x7d' :: rest => some (.obj before.reverse, rest)
    | text =>
      match name? (skipSpaces text) with
      | none => none
      | some (name, rest) =>
        match skipSpaces rest with
        | '=' :: rest =>
          match value? fuel rest with
          | some (value, ',' :: rest) => entries? fuel ((name, value) :: before.filter fun e => e.1 != name) rest
          | some (value, '\x7d' :: rest) =>
            some (.obj ((name, value) :: before.filter fun e => e.1 != name).reverse, rest)
          | _ => none
        | _ => none

end

/-- The value that a text stands for. -/
def value (text : String) : Json :=
  match value? (text.length + 1) text.toList with
  | some (value, []) => value
  | _ => .str text

end Variable

/-! ## Settings over settings -/

/-- The members with one of them set. -/
def setMember (members : List (String × Json)) (name : String) (value : Json) : List (String × Json) :=
  if members.any fun m => m.1 == name then members.map fun m => if m.1 == name then (name, value) else m
  else members ++ [(name, value)]

mutual

/-- Tables are merged member by member; any other value takes the place of the one below it. -/
def merge : Json → Json → Json
  | .obj lower, .obj upper => .obj (mergeMembers lower upper)
  | _, upper => upper

def mergeMembers (lower : List (String × Json)) : List (String × Json) → List (String × Json)
  | [] => lower
  | (name, upper) :: rest =>
    mergeMembers
      (setMember lower name (match lower.lookup name with
        | some below => merge below upper
        | none => upper)) rest

end

namespace Variable

/-- What the names of variables begin with, in any letter case. -/
def start : String := "HANGAR_"

/-- A value in the section that names lead to. -/
def nest : List String → Json → Json
  | [], value => value
  | name :: rest, value => .obj [(name, nest rest value)]

/-- The names that lead to a setting: those of the variable between two underscores, in lower case. -/
def path? (given : String) : Option (List String) :=
  let name := (Text.trim given).toList
  if (name.take start.length).map Char.toUpper ≠ start.toList then none
  else
    let key := (String.ofList (name.drop start.length)).replace "__" "."
    let names := ((Text.trim key).map Char.toLower).splitOn "."
    if names.any String.isEmpty then none else some names

/-- The settings of variables; of two for one setting the later one stands. -/
def settings (environment : List (String × String)) : Json :=
  environment.foldl (fun lower (name, text) =>
    match path? name with
    | some names => merge lower (nest names (value text))
    | none => lower) (.obj [])

end Variable

end Depot.Config
