/-!
# SHA-256

The hash of a byte string, over lists of bytes and 32-bit words.

- `pad`: the message, a one bit, zeros, and the length in bits, a whole number of 64-byte blocks.
- `schedule`: the sixty-four words that one block expands to.
- `digest`: the eight chaining words after all blocks, highest byte first.
-/

namespace Depot.Digest.Sha256

/-- The round constants: the first 32 bits of the cube roots of the first sixty-four primes. -/
def roundConstants : Vector UInt32 64 :=
  #v[0x428a2f98, 0x71374491, 0xb5c0fbcf, 0xe9b5dba5, 0x3956c25b, 0x59f111f1, 0x923f82a4, 0xab1c5ed5,
    0xd807aa98, 0x12835b01, 0x243185be, 0x550c7dc3, 0x72be5d74, 0x80deb1fe, 0x9bdc06a7, 0xc19bf174,
    0xe49b69c1, 0xefbe4786, 0x0fc19dc6, 0x240ca1cc, 0x2de92c6f, 0x4a7484aa, 0x5cb0a9dc, 0x76f988da,
    0x983e5152, 0xa831c66d, 0xb00327c8, 0xbf597fc7, 0xc6e00bf3, 0xd5a79147, 0x06ca6351, 0x14292967,
    0x27b70a85, 0x2e1b2138, 0x4d2c6dfc, 0x53380d13, 0x650a7354, 0x766a0abb, 0x81c2c92e, 0x92722c85,
    0xa2bfe8a1, 0xa81a664b, 0xc24b8b70, 0xc76c51a3, 0xd192e819, 0xd6990624, 0xf40e3585, 0x106aa070,
    0x19a4c116, 0x1e376c08, 0x2748774c, 0x34b0bcb5, 0x391c0cb3, 0x4ed8aa4a, 0x5b9cca4f, 0x682e6ff3,
    0x748f82ee, 0x78a5636f, 0x84c87814, 0x8cc70208, 0x90befffa, 0xa4506ceb, 0xbef9a3f7, 0xc67178f2]

/-- The eight words that are carried from block to block. -/
structure State where
  a : UInt32
  b : UInt32
  c : UInt32
  d : UInt32
  e : UInt32
  f : UInt32
  g : UInt32
  h : UInt32

/-- The words the chain starts from. -/
def initial : State :=
  ⟨0x6a09e667, 0xbb67ae85, 0x3c6ef372, 0xa54ff53a, 0x510e527f, 0x9b05688c, 0x1f83d9ab, 0x5be0cd19⟩

def State.toList (s : State) : List UInt32 := [s.a, s.b, s.c, s.d, s.e, s.f, s.g, s.h]

def State.add (s t : State) : State :=
  ⟨s.a + t.a, s.b + t.b, s.c + t.c, s.d + t.d, s.e + t.e, s.f + t.f, s.g + t.g, s.h + t.h⟩

def rotateRight (word : UInt32) (count : UInt32) : UInt32 :=
  (word >>> count) ||| (word <<< (32 - count))

def blockBytes : Nat := 64

/-- The eight bytes of a 64-bit number, highest first. -/
def lengthBytes (value : UInt64) : List UInt8 :=
  (List.range 8).map fun i => (value >>> (56 - 8 * i).toUInt64).toUInt8

/-- The message made a whole number of blocks. -/
def pad (message : List UInt8) : List UInt8 :=
  let size := message.length
  message ++ 0x80 :: List.replicate ((119 - size % 64) % 64) 0 ++ lengthBytes (8 * size).toUInt64

/-- The sixteen big-endian words of a block, zeros standing for bytes that are not there. -/
def wordsOf (block : List UInt8) : Array UInt32 :=
  let bytes := block.toArray
  Array.ofFn fun i : Fin 16 =>
    let byte (k : Nat) : UInt32 := (bytes.getD (4 * i.val + k) 0).toUInt32
    (byte 0 <<< 24) ||| (byte 1 <<< 16) ||| (byte 2 <<< 8) ||| byte 3

/-- The words of the block, with `count` more computed from the sixteen before each. -/
def extend : Nat → Array UInt32 → Array UInt32
  | 0, words => words
  | count + 1, words =>
    let at' (back : Nat) : UInt32 := words.getD (words.size - back) 0
    let low := rotateRight (at' 15) 7 ^^^ rotateRight (at' 15) 18 ^^^ (at' 15 >>> 3)
    let high := rotateRight (at' 2) 17 ^^^ rotateRight (at' 2) 19 ^^^ (at' 2 >>> 10)
    extend count (words.push (at' 16 + low + at' 7 + high))

def schedule (block : List UInt8) : Array UInt32 :=
  extend 48 (wordsOf block)

/-- One round with its message word and its constant. -/
def round (s : State) (word constant : UInt32) : State :=
  let sum1 := rotateRight s.e 6 ^^^ rotateRight s.e 11 ^^^ rotateRight s.e 25
  let choice := (s.e &&& s.f) ^^^ (~~~s.e &&& s.g)
  let temp1 := s.h + sum1 + choice + constant + word
  let sum0 := rotateRight s.a 2 ^^^ rotateRight s.a 13 ^^^ rotateRight s.a 22
  let majority := (s.a &&& s.b) ^^^ (s.a &&& s.c) ^^^ (s.b &&& s.c)
  ⟨temp1 + sum0 + majority, s.a, s.b, s.c, s.d + temp1, s.e, s.f, s.g⟩

/-- The chaining words after one block. -/
def compress (s : State) (block : List UInt8) : State :=
  let words := schedule block
  s.add ((List.finRange 64).foldl (fun t i => round t (words.getD i.val 0) roundConstants[i]) s)

/-- The chaining words after all whole blocks of `bytes`. -/
def absorb (s : State) (bytes : List UInt8) : State :=
  if bytes.length < blockBytes then s
  else absorb (compress s (bytes.take blockBytes)) (bytes.drop blockBytes)
termination_by bytes.length
decreasing_by simp_all [blockBytes]; omega

/-- The bytes of a word, highest first. -/
def wordBytes (word : UInt32) : List UInt8 :=
  [(word >>> 24).toUInt8, (word >>> 16).toUInt8, (word >>> 8).toUInt8, word.toUInt8]

/-- The 32 bytes of the hash. -/
def digest (message : List UInt8) : Vector UInt8 32 :=
  let bytes := (absorb initial (pad message)).toList.flatMap wordBytes
  Vector.ofFn fun i : Fin 32 => bytes.getD i.val 0

end Depot.Digest.Sha256
