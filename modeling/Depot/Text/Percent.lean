import Depot.Text.Hex
import Depot.Text.Utf8

/-!
# Percent escapes

- `encode`: a text with every byte escaped that does not stand for itself.
- `decode`: the bytes that a text with escapes stands for; a percent sign without two digits stands for
  itself.
-/

namespace Depot.Text.Percent

/-- Letters and digits. -/
def isAlphanumeric (b : UInt8) : Bool :=
  (48 ≤ b && b ≤ 57) || (65 ≤ b && b ≤ 90) || (97 ≤ b && b ≤ 122)

/-- An upper-case digit. -/
def digit (value : Nat) : Char := (Hex.digit value).toUpper

/-- The escape of a byte. -/
def escape (b : UInt8) : List Char := ['%', digit (b.toNat / 16), digit (b.toNat % 16)]

/-- The text of a byte: itself if `plain` says so, else its escape. -/
def byte (plain : UInt8 → Bool) (b : UInt8) : List Char :=
  if plain b then [Char.ofNat b.toNat] else escape b

def encode (plain : UInt8 → Bool) (s : String) : String :=
  String.ofList ((utf8 s).flatMap (byte plain))

/-- The value of a byte that is a digit. -/
def value? (b : UInt8) : Option Nat := Hex.digit? (Char.ofNat b.toNat)

def decode : List UInt8 → List UInt8
  | [] => []
  | b :: rest =>
    if b = 37 then
      match rest with
      | high :: low :: tail =>
        match value? high, value? low with
        | some h, some l => (16 * h + l).toUInt8 :: decode tail
        | _, _ => b :: decode (high :: low :: tail)
      | rest => b :: rest
    else b :: decode rest

end Depot.Text.Percent
