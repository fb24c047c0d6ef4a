/-!
# Base64 for URLs

Six bits are one of the letters, the digits, a hyphen and an underscore; nothing is added at the end.

- `encode`: the text of bytes.
-/

namespace Depot.Text.Base64

/-- The character of a number below 64. -/
def digit (value : Nat) : Char :=
  if value < 26 then Char.ofNat ('A'.toNat + value)
  else if value < 52 then Char.ofNat ('a'.toNat + (value - 26))
  else if value < 62 then Char.ofNat ('0'.toNat + (value - 52))
  else if value = 62 then '-'
  else '_'

/-- The first characters of a group of three bytes, of which the last may be missing. -/
def group (count : Nat) (a b c : UInt8) : List Char :=
  let n := a.toNat * 65536 + b.toNat * 256 + c.toNat
  ([n / 262144, n / 4096 % 64, n / 64 % 64, n % 64].take count).map digit

def encodeChars : List UInt8 → List Char
  | a :: b :: c :: rest => group 4 a b c ++ encodeChars rest
  | [a, b] => group 3 a b 0
  | [a] => group 2 a 0 0
  | [] => []

def encode (bytes : List UInt8) : String := String.ofList (encodeChars bytes)

end Depot.Text.Base64
