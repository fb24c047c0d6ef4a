import Depot.Text.Hex
import Depot.Text.Utf8

/-!
# Universally unique identifiers

Sixteen bytes, written as 8, 4, 4, 4 and 12 lower-case digits.

- `Uuid.parse?` also reads the digits alone, in braces, or behind `urn:uuid:`, in either letter case.
- `Uuid.random` makes a version 4 identifier out of sixteen random bytes.
-/

namespace Depot

structure Uuid where
  bytes : Vector UInt8 16
  deriving DecidableEq

namespace Uuid

instance : Inhabited Uuid := ⟨⟨Vector.replicate 16 0⟩⟩

/-- The identifier whose bytes spell a number, highest byte first. -/
def ofNat (n : Nat) : Uuid :=
  ⟨Vector.ofFn fun i : Fin 16 => (n >>> (8 * (15 - i.val))).toUInt8⟩

/-- A version 4 identifier: its version and variant bits replace those of the random bytes. -/
def random (bytes : Vector UInt8 16) : Uuid :=
  ⟨Vector.ofFn fun i : Fin 16 =>
    if i.val = 6 then (bytes.get i &&& 0x0F) ||| 0x40
    else if i.val = 8 then (bytes.get i &&& 0x3F) ||| 0x80
    else bytes.get i⟩

def version (id : Uuid) : Nat := (id.bytes.toList.getD 6 0 >>> 4).toNat

/-- The digits in groups. -/
def text (id : Uuid) : String :=
  let group (start count : Nat) := Text.Hex.encode ((id.bytes.toList.drop start).take count)
  "-".intercalate [group 0 4, group 4 2, group 6 2, group 8 2, group 10 6]

instance : ToString Uuid := ⟨text⟩

/-- The bytes that pairs of digits spell. -/
def pairs? : List Char → Option (List UInt8)
  | [] => some []
  | a :: b :: rest => do
    let high ← Text.Hex.digit? a
    let low ← Text.Hex.digit? b
    let more ← pairs? rest
    some ((16 * high + low).toUInt8 :: more)
  | [_] => none

def ofDigits? (digits : List Char) : Option Uuid := do
  guard (digits.length = 32)
  let bytes ← pairs? digits
  some ⟨Vector.ofFn fun i : Fin 16 => bytes.getD i.val 0⟩

/-- Digits in groups of 8, 4, 4, 4 and 12. -/
def ofGroups? (text : List Char) : Option Uuid :=
  let groups := text.splitOn '-'
  if groups.map List.length = [8, 4, 4, 4, 12] then ofDigits? groups.flatten else none

/-- What is left of a text behind `start`. -/
def behind? (start text : List Char) : Option (List Char) :=
  if start.isPrefixOf text then some (text.drop start.length) else none

def ofChars? (text : List Char) : Option Uuid :=
  match text.length with
  | 32 => ofDigits? text
  | 36 => ofGroups? text
  | 38 => if text.getLast? = some '\x7d' then (behind? ['\x7b'] text.dropLast).bind ofGroups? else none
  | 45 => (behind? "urn:uuid:".toList text).bind ofGroups?
  | _ => none

def parse? (text : String) : Option Uuid := ofChars? text.toList

end Uuid

end Depot
