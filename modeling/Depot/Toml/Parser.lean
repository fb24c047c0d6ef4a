import Depot.Toml.Scalar
import Depot.Toml.Table

/-!
# Reading TOML documents

A document is read line by line: headers choose a table, assignments fill it.

- `parse?`: the document as a JSON object.
-/

namespace Depot.Toml

/-! ## Names -/

def isBare (c : Char) : Bool := c.isAlphanum || c == '_' || c == '-'

/-- One name of a key. -/
def name? : Chars → Option (String × Chars)
  | '"' :: rest => quoted? '"' false rest
  | '\'' :: rest => quoted? '\'' false rest
  | text =>
    let bare := text.takeWhile isBare
    if bare.isEmpty then none else some (String.ofList bare, text.drop bare.length)

/-- Names with dots between them. -/
def key? : Nat → Chars → Option (List String × Chars)
  | 0, _ => none
  | fuel + 1, text => do
    let (name, rest) ← name? (skipSpaces text)
    match skipSpaces rest with
    | '.' :: rest =>
      let (more, rest) ← key? fuel rest
      some (name :: more, rest)
    | rest => some ([name], rest)

/-! ## Values -/

/-- What is left behind a comment, up to the end of its line. -/
def comment? (text : Chars) : Option Chars :=
  match text with
  | '#' :: rest =>
    let left := rest.dropWhile isPlain
    if left.isEmpty ∨ (newline? left).isSome then some left else none
  | text => some text

/-- What is left behind blanks, comments and ends of lines. -/
def skipLines? : Nat → Chars → Option Chars
  | 0, _ => none
  | fuel + 1, text => do
    let rest ← comment? (skipSpaces text)
    match newline? rest with
    | some rest => skipLines? fuel rest
    | none => some rest

mutual

/-- A value; `fuel` bounds the number of values and separators. -/
def value? : Nat → Chars → Option (Json × Chars)
  | 0, _ => none
  | fuel + 1, text =>
    match text with
    | '"' :: rest => (quoted? '"' true rest).map fun (s, rest) => (.str s, rest)
    | '\'' :: rest => (quoted? '\'' true rest).map fun (s, rest) => (.str s, rest)
    | '[' :: rest => items? fuel [] rest
    | '\x7b' :: rest =>
      match skipSpaces rest with
      | '\x7d' :: rest => some (.obj [], rest)
      | rest => entries? fuel [] rest
    | text =>
      match literal? "true".toList text, literal? "false".toList text with
      | some rest, _ => some (.bool true, rest)
      | _, some rest => some (.bool false, rest)
      | _, _ => moment? text <|> number? text

/-- The items of an array from the next one on; `before` holds those already read, last first. -/
def items? : Nat → List Json → Chars → Option (Json × Chars)
  | 0, _, _ => none
  | fuel + 1, before, text =>
    match skipLines? (text.length + 1) text with
    | none => none
    | some (']' :: rest) => some (.arr before.reverse, rest)
    | some text =>
      match value? fuel text with
      | none => none
      | some (item, rest) =>
        match skipLines? (rest.length + 1) rest with
        | some (',' :: rest) => items? fuel (item :: before) rest
        | some (']' :: rest) => some (.arr (item :: before).reverse, rest)
        | _ => none

/-- The assignments of a table in braces from the next one on. -/
def entries? : Nat → Members → Chars → Option (Json × Chars)
  | 0, _, _ => none
  | fuel + 1, members, text =>
    match key? (text.length + 1) text with
    | some (key, '=' :: rest) =>
      match value? fuel (skipSpaces rest) with
      | none => none
      | some (v, rest) =>
        match assign v key members, skipSpaces rest with
        | some members, ',' :: rest => entries? fuel members rest
        | some members, '\x7d' :: rest => some (members.toJson, rest)
        | _, _ => none
    | _ => none

end

/-! ## Lines -/

/-- What has been read of a document: its tables, and the header in force. -/
structure Document where
  members : Members
  header : List String

/-- A header behind its bracket. -/
def Document.header? (d : Document) (text : Chars) : Option (Document × Chars) := do
  match text with
  | '[' :: rest =>
    let (key, rest) ← key? (rest.length + 1) rest
    let rest ← literal? "]]".toList rest
    some (⟨← openArray key d.members, key⟩, rest)
  | rest =>
    let (key, rest) ← key? (rest.length + 1) rest
    let rest ← literal? "]".toList rest
    some (⟨← openTable key d.members, key⟩, rest)

def Document.assignment? (d : Document) (text : Chars) : Option (Document × Chars) := do
  let (key, rest) ← key? (text.length + 1) text
  let rest ← literal? ['='] rest
  let (v, rest) ← value? (rest.length + 1) (skipSpaces rest)
  some (⟨← assignBelow v key d.header d.members, d.header⟩, rest)

/-- The document after its next line; a line may hold nothing, or only a comment. -/
def Document.line? (d : Document) (text : Chars) : Option (Document × Chars) :=
  match text with
  | [] => some (d, [])
  | '[' :: rest => d.header? rest
  | c :: rest => if c = '#' ∨ (newline? (c :: rest)).isSome then some (d, c :: rest) else d.assignment? (c :: rest)

/-- The whole document; `fuel` bounds the number of lines. -/
def lines? : Nat → Document → Chars → Option Document
  | 0, _, _ => none
  | fuel + 1, d, text => do
    let (d, rest) ← d.line? (skipSpaces text)
    let rest ← comment? (skipSpaces rest)
    match rest with
    | [] => some d
    | rest => lines? fuel d (← newline? rest)

/-- The document that a text spells; a byte order mark in front of it is skipped. -/
def parse? (text : String) : Option Json :=
  let chars := match text.toList with
    | c :: rest => if c = Char.ofNat 0xFEFF then rest else c :: rest
    | [] => []
  (lines? (chars.length + 1) ⟨[], []⟩ chars).map fun d => d.members.toJson

end Depot.Toml
