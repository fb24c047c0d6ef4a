import Depot.Json.Basic
import Depot.Time.Calendar

/-!
# Scalars of TOML

Each reader takes the characters of the text from its place on and answers what it read and what is left.

- `quoted?`: strings in double or single quotes, on one line or, in three quotes, on several.
- `number?`: whole numbers in four bases, and numbers with a fraction or an exponent.
- `moment?`: dates, times of day, and both together.
-/

namespace Depot.Toml

abbrev Chars := List Char

/-- What is left behind a word. -/
def literal? : Chars → Chars → Option Chars
  | [], text => some text
  | c :: word, d :: text => if c = d then literal? word text else none
  | _ :: _, [] => none

def isSpace (c : Char) : Bool := c == ' ' || c == '\t'

def skipSpaces (text : Chars) : Chars := text.dropWhile isSpace

/-- What is left behind the end of a line. -/
def newline? : Chars → Option Chars
  | '\n' :: rest => some rest
  | '\r' :: '\n' :: rest => some rest
  | _ => none

/-- Whether a character may stand in a comment or a string. -/
def isPlain (c : Char) : Bool := c == '\t' || (32 ≤ c.toNat && c.toNat ≠ 127)

/-! ## Strings -/

/-- The character of hexadecimal digits. -/
def pointOf? (digits : Chars) : Option Char := do
  let values ← digits.mapM Text.Hex.digit?
  let point := values.foldl (fun n d => 16 * n + d) 0
  if point.isValidChar then some (Char.ofNat point) else none

/-- A character behind a backslash. -/
def escape? : Chars → Option (Char × Chars)
  | 'b' :: rest => some (Char.ofNat 8, rest)
  | 't' :: rest => some ('\t', rest)
  | 'n' :: rest => some ('\n', rest)
  | 'f' :: rest => some (Char.ofNat 12, rest)
  | 'r' :: rest => some ('\r', rest)
  | '"' :: rest => some ('"', rest)
  | '\\' :: rest => some ('\\', rest)
  | 'u' :: rest =>
    if rest.length < 4 then none else (pointOf? (rest.take 4)).map fun c => (c, rest.drop 4)
  | 'U' :: rest =>
    if rest.length < 8 then none else (pointOf? (rest.take 8)).map fun c => (c, rest.drop 8)
  | _ => none

/-- What is left behind a backslash at the end of a line and the blanks after it. -/
def continued? (text : Chars) : Option Chars :=
  (newline? (skipSpaces text)).map fun rest => rest.dropWhile fun c => isSpace c || c == '\n' || c == '\r'

/-- The rest of a string on one line; `done` holds what was read, last first. -/
def lineRest? (quote : Char) : Nat → Chars → Chars → Option (String × Chars)
  | 0, _, _ => none
  | _ + 1, _, [] => none
  | fuel + 1, done, c :: rest =>
    if c = quote then some (String.ofList done.reverse, rest)
    else if c = '\\' ∧ quote = '"' then
      match escape? rest with
      | some (e, rest) => lineRest? quote fuel (e :: done) rest
      | none => none
    else if isPlain c then lineRest? quote fuel (c :: done) rest
    else none

/-- How many quotes stand at the beginning. -/
def quotes (quote : Char) (text : Chars) : Nat := (text.takeWhile (· == quote)).length

/-- The rest of a string on several lines. Of the quotes at its end up to two belong to the string. -/
def linesRest? (quote : Char) : Nat → Chars → Chars → Option (String × Chars)
  | 0, _, _ => none
  | _ + 1, _, [] => none
  | fuel + 1, done, c :: rest =>
    if c = quote then
      let count := quotes quote (c :: rest)
      if count < 3 then linesRest? quote fuel (c :: done) rest
      else if 5 < count then none
      else some (String.ofList (List.replicate (count - 3) quote ++ done).reverse, (c :: rest).drop count)
    else if c = '\\' ∧ quote = '"' then
      match continued? rest with
      | some rest => linesRest? quote fuel done rest
      | none =>
        match escape? rest with
        | some (e, rest) => linesRest? quote fuel (e :: done) rest
        | none => none
    else
      match newline? (c :: rest) with
      | some rest => linesRest? quote fuel ('\n' :: done) rest
      | none => if isPlain c then linesRest? quote fuel (c :: done) rest else none

/-- A string behind its first quote; on several lines only where `long` says so. -/
def quoted? (quote : Char) (long : Bool) (text : Chars) : Option (String × Chars) :=
  match text with
  | a :: b :: rest =>
    if long ∧ a = quote ∧ b = quote then
      linesRest? quote (rest.length + 1) [] ((newline? rest).getD rest)
    else lineRest? quote (text.length + 1) [] text
  | _ => lineRest? quote (text.length + 1) [] text

/-! ## Numbers -/

/-- Digits with single underscores between them. -/
def digits? (isDigit : Char → Bool) (text : Chars) : Option (Chars × Chars) :=
  let run := text.takeWhile fun c => isDigit c || c == '_'
  let groups := run.splitOn '_'
  if groups.all fun g => !g.isEmpty then some (groups.flatten, text.drop run.length) else none

/-- The value of digits in a base. -/
def valueOf (base : Nat) (digits : Chars) : Nat :=
  digits.foldl (fun n c => base * n + (Text.Hex.digit? c).getD 0) 0

/-- A whole number that fits 64 bits with a sign. -/
def whole? (value : Int) (rest : Chars) : Option (Json × Chars) :=
  if Int64.minValue.toInt ≤ value ∧ value ≤ Int64.maxValue.toInt then some (.int value, rest) else none

/-- A whole number in a base other than ten. -/
def based? (base : Nat) (text : Chars) : Option (Json × Chars) := do
  let isDigit (c : Char) : Bool := (Text.Hex.digit? c).any (· < base)
  let (digits, rest) ← digits? isDigit text
  whole? (valueOf base digits) rest

/-- The fraction and the exponent of a number, which may both be missing. -/
def tail? (text : Chars) : Option (Chars × Chars) := do
  let (point, text) ← match text with
    | '.' :: rest => (digits? Char.isDigit rest).map fun (d, rest) => ('.' :: d, rest)
    | text => some ([], text)
  match text with
  | e :: rest =>
    if e = 'e' ∨ e = 'E' then
      let (sign, rest) := match rest with
        | '+' :: more => (['+'], more)
        | '-' :: more => (['-'], more)
        | rest => ([], rest)
      let (power, rest) ← digits? Char.isDigit rest
      some (point ++ e :: sign ++ power, rest)
    else some (point, text)
  | [] => some (point, text)

/-- A number in base ten without its sign. -/
def decimal? (negative : Bool) (text : Chars) : Option (Json × Chars) := do
  let (digits, rest) ← digits? Char.isDigit text
  if digits.head? = some '0' ∧ 1 < digits.length then none
  let (tail, rest) ← tail? rest
  let magnitude := valueOf 10 digits
  if tail.isEmpty then whole? (if negative then -magnitude else magnitude) rest
  else some (.decimal (String.ofList ((if negative then ['-'] else []) ++ digits ++ tail)), rest)

/-- The words for what is no finite number. -/
def special? (text : Chars) : Option (Json × Chars) :=
  ((literal? "inf".toList text).map fun rest => (.decimal "inf", rest)) <|>
  ((literal? "nan".toList text).map fun rest => (.decimal "nan", rest))

def number? : Chars → Option (Json × Chars)
  | '+' :: rest => special? rest <|> decimal? false rest
  | '-' :: rest => special? rest <|> decimal? true rest
  | '0' :: 'x' :: rest => based? 16 rest
  | '0' :: 'o' :: rest => based? 8 rest
  | '0' :: 'b' :: rest => based? 2 rest
  | text => special? text <|> decimal? false text

/-! ## Dates and times -/

/-- A number of exactly so many digits, between two bounds. -/
def field? (width low high : Nat) (text : Chars) : Option (Nat × Chars) :=
  let digits := text.take width
  let value := valueOf 10 digits
  if digits.length = width ∧ digits.all Char.isDigit ∧ low ≤ value ∧ value ≤ high then
    some (value, text.drop width)
  else none

def date? (text : Chars) : Option Chars := do
  let (year, rest) ← field? 4 0 9999 text
  let (month, rest) ← field? 2 1 12 (← literal? ['-'] rest)
  let (_, rest) ← field? 2 1 (Time.daysInMonth year month) (← literal? ['-'] rest)
  some rest

def clock? (text : Chars) : Option Chars := do
  let (_, rest) ← field? 2 0 23 text
  let (_, rest) ← field? 2 0 59 (← literal? [':'] rest)
  let (_, rest) ← field? 2 0 60 (← literal? [':'] rest)
  match rest with
  | '.' :: more => (digits? Char.isDigit (more.takeWhile Char.isDigit)).map fun _ => more.dropWhile Char.isDigit
  | rest => some rest

/-- The distance from UTC, which may be missing. -/
def offset? : Chars → Option Chars
  | 'Z' :: rest | 'z' :: rest => some rest
  | '+' :: rest | '-' :: rest => do
    let (_, rest) ← field? 2 0 23 rest
    let (_, rest) ← field? 2 0 59 (← literal? [':'] rest)
    some rest
  | rest => some rest

/-- What is left behind a date, a time of day, or both. -/
def momentRest? (text : Chars) : Option Chars :=
  match date? text with
  | none => clock? text
  | some rest =>
    match rest with
    | c :: more =>
      if c = 'T' ∨ c = 't' then (clock? more).bind offset?
      else if c = ' ' then (((clock? more).bind offset?) <|> some rest)
      else some rest
    | [] => some rest

/-- A date or time as a value: a table of one member, which no setting takes. -/
def moment? (text : Chars) : Option (Json × Chars) :=
  (momentRest? text).map fun rest =>
    (.obj [("moment", .str (String.ofList (text.take (text.length - rest.length))))], rest)

end Depot.Toml
