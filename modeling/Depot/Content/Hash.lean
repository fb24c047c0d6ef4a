import Depot.Content.Error
import Depot.Digest.Blake3
import Depot.Json.Basic
import Depot.Text.Hex
import Depot.Text.Utf8

/-!
# Content hashes

- `Hash`: the 32 bytes of a BLAKE3 hash; `Hash.hex` spells it and `Hash.parse` reads it.
- `BlockHash`: the hash of a block's bytes; `BlockHash.objectKey` is where the block is stored.
- `FileHash`: the hash of the raw bytes of a file's block hashes in their order.
- `Hasher`: a hash taken piece by piece.
-/

namespace Depot.Content

structure Hash where
  bytes : Vector UInt8 32
  deriving DecidableEq

namespace Hash

/-- The hash of a byte string. -/
def compute (data : List UInt8) : Hash := ⟨Digest.Blake3.digest data⟩

/-- 64 lower-case digits. -/
def hex (h : Hash) : String := Text.Hex.encode h.bytes.toList

/-- The first sixteen digits, for diagnostics. -/
def shortHex (h : Hash) : String := String.ofList (h.hex.toList.take 16)

/-- The order of the bytes, first byte first. -/
def le (a b : Hash) : Bool := !(b.bytes.toList < a.bytes.toList)

instance : ToString Hash := ⟨hex⟩

instance : Inhabited Hash := ⟨⟨Vector.replicate 32 0⟩⟩

/-- The value of two characters: two digits, or a plus sign and one digit. -/
def pair? (a b : UInt8) : Option UInt8 :=
  let digit (x : UInt8) := if x < 128 then Text.Hex.digit? (Char.ofNat x.toNat) else none
  if a == 43 then (digit b).map Nat.toUInt8
  else do
    let high ← digit a
    let low ← digit b
    some (16 * high + low).toUInt8

/-- The bytes that pairs of characters of `text` stand for. -/
def pairs (text : String) : List UInt8 → Except Error (List UInt8)
  | a :: b :: rest =>
    match Text.Utf8.firstFault? [a, b] with
    | some fault => .error (.invalidHash fault.message)
    | none =>
      match pair? a b with
      | none => .error (.invalidHash s!"{text}: invalid digit found in string")
      | some value => (pairs text rest).map (value :: ·)
  | _ => .ok []

/-- The hash that a text of 64 characters spells, in either letter case. -/
def parse (text : String) : Except Error Hash :=
  let raw := Text.utf8 text
  if raw.length ≠ 64 then .error (.invalidHash s!"expected 64 hex chars, got {raw.length}")
  else
    (pairs text raw).map fun values =>
      ⟨Vector.ofFn fun i : Fin 32 => values.getD i.val 0⟩

def toJson (h : Hash) : Json := .str h.hex

def ofJson? (json : Json) : Option Hash := json.str?.bind fun text => (parse text).toOption

end Hash

/-- The hash of the bytes of a block. -/
structure BlockHash where
  hash : Hash
  deriving DecidableEq, Inhabited

namespace BlockHash

def compute (data : List UInt8) : BlockHash := ⟨.compute data⟩

def hex (h : BlockHash) : String := h.hash.hex

def parse (text : String) : Except Error BlockHash := (Hash.parse text).map .mk

/-- The key of the block in the object store: two levels of directories of two digits each. -/
def objectKey (h : BlockHash) : String :=
  let digits := h.hex.toList
  "blocks/" ++ String.ofList (digits.take 2) ++ "/" ++ String.ofList ((digits.drop 2).take 2) ++ "/" ++ h.hex

instance : ToString BlockHash := ⟨hex⟩

def toJson (h : BlockHash) : Json := h.hash.toJson

def ofJson? (json : Json) : Option BlockHash := (Hash.ofJson? json).map .mk

end BlockHash

/-- The hash of a whole file. -/
structure FileHash where
  hash : Hash
  deriving DecidableEq, Inhabited

namespace FileHash

/-- The hash of the file made of these blocks. -/
def ofBlocks (blocks : List BlockHash) : FileHash :=
  ⟨.compute (blocks.flatMap fun b => b.hash.bytes.toList)⟩

def hex (h : FileHash) : String := h.hash.hex

def parse (text : String) : Except Error FileHash := (Hash.parse text).map .mk

instance : ToString FileHash := ⟨hex⟩

def toJson (h : FileHash) : Json := h.hash.toJson

def ofJson? (json : Json) : Option FileHash := (Hash.ofJson? json).map .mk

end FileHash

/-- A hash taken piece by piece: what it was given so far. -/
structure Hasher where
  absorbed : List UInt8

namespace Hasher

def empty : Hasher := ⟨[]⟩

def update (h : Hasher) (data : List UInt8) : Hasher := ⟨h.absorbed ++ data⟩

def finish (h : Hasher) : Hash := .compute h.absorbed

end Hasher

end Depot.Content
