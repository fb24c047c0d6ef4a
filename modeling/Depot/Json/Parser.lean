import Depot.Json.Basic

/-!
# Reading JSON text

The grammar of RFC 8259 on bytes.

- Only space, tab, line feed and carriage return are blanks.
- A number has no leading zeros and a digit on both sides of its point.
- Bytes of a string that are no UTF-8, and halves of surrogate pairs, make the string `garbled`; the
  rest of the text is still read.
-/

namespace Depot.Json

abbrev Bytes := List UInt8

/-- The byte of an ASCII character. -/
def code (c : Char) : UInt8 := c.toNat.toUInt8

def isBlank (b : UInt8) : Bool := b == 32 || b == 9 || b == 10 || b == 13

def isDigit (b : UInt8) : Bool := 48 ≤ b && b ≤ 57

def skipBlanks (bytes : Bytes) : Bytes := bytes.dropWhile isBlank

/-- The rest of the input after the ASCII word `word`. -/
def literal? : List Char → Bytes → Option Bytes
  | [], bytes => some bytes
  | c :: word, b :: bytes => if b == code c then literal? word bytes else none
  | _ :: _, [] => none

/-! ## Numbers -/

/-- The text of ASCII bytes. -/
def asciiText (bytes : Bytes) : String :=
  String.ofList (bytes.map fun b => Char.ofNat b.toNat)

def natOfDigits (digits : Bytes) : Nat :=
  digits.foldl (fun n b => 10 * n + (b.toNat - 48)) 0

/-- At least one digit and what follows the digits. -/
def digits? (bytes : Bytes) : Option (Bytes × Bytes) :=
  match bytes.takeWhile isDigit with
  | [] => none
  | digits => some (digits, bytes.dropWhile isDigit)

/-- The whole part: no digit stands behind a leading zero. -/
def wholePart? (bytes : Bytes) : Option (Bytes × Bytes) := do
  let (digits, rest) ← digits? bytes
  if digits.head? == some (code '0') && digits.length > 1 then none else some (digits, rest)

/-- The point and the digits behind it, or nothing. -/
def fraction? : Bytes → Option (Bytes × Bytes)
  | [] => some ([], [])
  | b :: rest =>
    if b == code '.' then (digits? rest).map fun (digits, rest) => (b :: digits, rest)
    else some ([], b :: rest)

/-- The exponent, or nothing. -/
def exponent? : Bytes → Option (Bytes × Bytes)
  | [] => some ([], [])
  | b :: rest =>
    if b == code 'e' || b == code 'E' then
      let (sign, rest) := match rest with
        | s :: more => if s == code '+' || s == code '-' then ([s], more) else ([], rest)
        | [] => ([], rest)
      (digits? rest).map fun (digits, rest) => (b :: sign ++ digits, rest)
    else some ([], b :: rest)

/-- A number from its sign, its whole digits and its other characters. -/
def ofNumber (negative : Bool) (whole other : Bytes) : Json :=
  let magnitude := natOfDigits whole
  let text := asciiText (whole ++ other)
  if !other.isEmpty then decimal (if negative then "-" ++ text else text)
  else if negative then
    if 1 ≤ magnitude ∧ Int64.minValue.toInt ≤ -magnitude then int (-magnitude) else decimal ("-" ++ text)
  else if magnitude < UInt64.size then int magnitude else decimal text

def number? (negative : Bool) (bytes : Bytes) : Option (Json × Bytes) := do
  let (whole, rest) ← wholePart? bytes
  let (point, rest) ← fraction? rest
  let (power, rest) ← exponent? rest
  some (ofNumber negative whole (point ++ power), rest)

/-! ## Strings -/

/-- What has been read of a string. -/
structure Scan where
  /-- The bytes of the text, last first. -/
  reversed : Bytes
  /-- The first half of a surrogate pair that waits for its second. -/
  pending : Option Nat
  /-- No half of a surrogate pair stood alone. -/
  paired : Bool

namespace Scan

def empty : Scan := ⟨[], none, true⟩

def bytes (s : Scan) (more : Bytes) : Scan :=
  ⟨more.reverse ++ s.reversed, none, s.paired && s.pending.isNone⟩

/-- The UTF-8 bytes of a code point that is no surrogate. -/
def utf8 (point : Nat) : Bytes :=
  (Char.ofNat point).toString.toUTF8.toList

/-- A code unit of UTF-16 from an escape. -/
def unit (s : Scan) (u : Nat) : Scan :=
  if 0xDC00 ≤ u ∧ u < 0xE000 then
    match s.pending with
    | some high => { s with
        reversed := (utf8 (0x10000 + (high - 0xD800) * 0x400 + (u - 0xDC00))).reverse ++ s.reversed
        pending := none }
    | none => { s with paired := false }
  else if 0xD800 ≤ u ∧ u < 0xDC00 then
    ⟨s.reversed, some u, s.paired && s.pending.isNone⟩
  else s.bytes (utf8 u)

/-- The text, if the bytes are UTF-8 and surrogates come in pairs. -/
def text? (s : Scan) : Option String :=
  if s.paired && s.pending.isNone then String.fromUTF8? ⟨s.reversed.reverse.toArray⟩ else none

end Scan

/-- The value of four hexadecimal digits. -/
def fourDigits? (a b c d : UInt8) : Option Nat := do
  let value (x : UInt8) := Text.Hex.digit? (Char.ofNat x.toNat)
  some (4096 * (← value a) + 256 * (← value b) + 16 * (← value c) + (← value d))

/-- The byte that a short escape stands for. -/
def shortEscape? (b : UInt8) : Option UInt8 :=
  [(code '"', code '"'), (code '\\', code '\\'), (code '/', code '/'), (code 'b', 8), (code 'f', 12),
    (code 'n', 10), (code 'r', 13), (code 't', 9)].lookup b

/-- The rest of a string behind its opening quote: its text, if it has one, and what follows it. -/
def stringRest? (scan : Scan) : Bytes → Option (Option String × Bytes)
  | [] => none
  | 34 :: rest => some (scan.text?, rest)
  | 92 :: 117 :: a :: b :: c :: d :: rest =>
    match fourDigits? a b c d with
    | some u => stringRest? (scan.unit u) rest
    | none => none
  | 92 :: b :: rest =>
    match shortEscape? b with
    | some e => stringRest? (scan.bytes [e]) rest
    | none => none
  | b :: rest => if b < 32 || b == 92 then none else stringRest? (scan.bytes [b]) rest

/-! ## Values -/

/-- An object all of whose names are text. -/
def ofEntries (entries : List (Option String × Json)) : Json :=
  match entries.mapM fun (name, value) => name.map fun n => (n, value) with
  | some members => obj members
  | none => garbled

mutual

/-- A value and what follows it; `fuel` bounds the number of values and separators. -/
def value? : Nat → Bytes → Option (Json × Bytes)
  | 0, _ => none
  | fuel + 1, bytes =>
    match skipBlanks bytes with
    | [] => none
    | b :: rest =>
      if b == code '"' then
        (stringRest? .empty rest).map fun (text, rest) => ((text.map str).getD garbled, rest)
      else if b == code '[' then
        match skipBlanks rest with
        | 93 :: rest => some (arr [], rest)
        | rest => items? fuel [] rest
      else if b == code '\x7b' then
        match skipBlanks rest with
        | 125 :: rest => some (obj [], rest)
        | rest => entries? fuel [] rest
      else if b == code '-' then number? true rest
      else if isDigit b then number? false (b :: rest)
      else if b == code 't' then (literal? "rue".toList rest).map (bool true, ·)
      else if b == code 'f' then (literal? "alse".toList rest).map (bool false, ·)
      else if b == code 'n' then (literal? "ull".toList rest).map (null, ·)
      else none

/-- The items of an array from the next one on; `before` holds those already read, last first. -/
def items? : Nat → List Json → Bytes → Option (Json × Bytes)
  | 0, _, _ => none
  | fuel + 1, before, bytes =>
    match value? fuel bytes with
    | none => none
    | some (item, rest) =>
      match skipBlanks rest with
      | 44 :: rest => items? fuel (item :: before) rest
      | 93 :: rest => some (arr (item :: before).reverse, rest)
      | _ => none

/-- The members of an object from the next one on. -/
def entries? : Nat → List (Option String × Json) → Bytes → Option (Json × Bytes)
  | 0, _, _ => none
  | fuel + 1, before, bytes =>
    match skipBlanks bytes with
    | 34 :: rest =>
      match stringRest? .empty rest with
      | none => none
      | some (name, rest) =>
        match skipBlanks rest with
        | 58 :: rest =>
          match value? fuel rest with
          | none => none
          | some (value, rest) =>
            match skipBlanks rest with
            | 44 :: rest => entries? fuel ((name, value) :: before) rest
            | 125 :: rest => some (ofEntries ((name, value) :: before).reverse, rest)
            | _ => none
        | _ => none
    | _ => none

end

/-- The value that a whole text spells. -/
def parse? (bytes : Bytes) : Option Json :=
  match value? (bytes.length + 1) bytes with
  | some (json, rest) => if (skipBlanks rest).isEmpty then some json else none
  | none => none

end Depot.Json
