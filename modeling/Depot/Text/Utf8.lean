/-!
# UTF-8

- `utf8`: the bytes of a text.
- `ofUtf8?`: the text of bytes, if they are UTF-8.
- `Fault`: where bytes stop being UTF-8; `firstFault?` finds it and `Fault.message` says it.
- `lossy`: the text of bytes with a replacement character for each fault.
-/

namespace Depot.Text

/-- The bytes of a text. -/
def utf8 (s : String) : List UInt8 :=
  s.toList.flatMap String.utf8EncodeChar

/-- The text that bytes spell. -/
def ofUtf8? (bytes : List UInt8) : Option String :=
  String.fromUTF8? ⟨bytes.toArray⟩

namespace Utf8

/-- The first place where bytes stop being UTF-8. -/
structure Fault where
  index : Nat
  /-- How many bytes are no part of any character; none where the input only ends too early. -/
  width : Option Nat
  deriving DecidableEq, Repr

def Fault.message (f : Fault) : String :=
  match f.width with
  | some n => s!"invalid utf-8 sequence of {n} bytes from index {f.index}"
  | none => s!"incomplete utf-8 byte sequence from index {f.index}"

/-- Ranges for the second and later bytes of a character, by its first byte. -/
def followers? (first : UInt8) : Option (List (UInt8 × UInt8)) :=
  let tail : UInt8 × UInt8 := (0x80, 0xBF)
  if first < 0x80 then some []
  else if 0xC2 ≤ first && first ≤ 0xDF then some [tail]
  else if first == 0xE0 then some [(0xA0, 0xBF), tail]
  else if first == 0xED then some [(0x80, 0x9F), tail]
  else if 0xE1 ≤ first && first ≤ 0xEF then some [tail, tail]
  else if first == 0xF0 then some [(0x90, 0xBF), tail, tail]
  else if 0xF1 ≤ first && first ≤ 0xF3 then some [tail, tail, tail]
  else if first == 0xF4 then some [(0x80, 0x8F), tail, tail]
  else none

/-- What is wrong behind the first byte: the width of the fault, or an early end. -/
def tailFault? : Nat → List (UInt8 × UInt8) → List UInt8 → Option (Option Nat)
  | _, [], _ => none
  | _, _ :: _, [] => some none
  | width, (low, high) :: ranges, b :: bytes =>
    if low ≤ b && b ≤ high then tailFault? (width + 1) ranges bytes else some (some width)

/-- The first fault of `bytes`, which begin at `index`; `fuel` bounds the number of characters. -/
def faultFrom? : Nat → Nat → List UInt8 → Option Fault
  | 0, _, _ => none
  | _ + 1, _, [] => none
  | fuel + 1, index, b :: bytes =>
    match followers? b with
    | none => some ⟨index, some 1⟩
    | some ranges =>
      match tailFault? 1 ranges bytes with
      | some width => some ⟨index, width⟩
      | none => faultFrom? fuel (index + 1 + ranges.length) (bytes.drop ranges.length)

def firstFault? (bytes : List UInt8) : Option Fault :=
  faultFrom? bytes.length 0 bytes

/-- The bytes of the character that stands for a fault. -/
def replacement : List UInt8 := [0xEF, 0xBF, 0xBD]

/-- The bytes with each fault replaced; `fuel` bounds the number of characters and faults. -/
def repair : Nat → List UInt8 → List UInt8
  | 0, _ => []
  | _ + 1, [] => []
  | fuel + 1, b :: bytes =>
    match followers? b with
    | none => replacement ++ repair fuel bytes
    | some ranges =>
      match tailFault? 1 ranges bytes with
      | none => b :: bytes.take ranges.length ++ repair fuel (bytes.drop ranges.length)
      | some (some width) => replacement ++ repair fuel (bytes.drop (width - 1))
      | some none => replacement

def lossy (bytes : List UInt8) : String :=
  (ofUtf8? (repair bytes.length bytes)).getD ""

end Utf8

end Depot.Text
