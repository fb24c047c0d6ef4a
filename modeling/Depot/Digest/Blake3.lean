/-!
# BLAKE3 with a 32-byte output

The unkeyed hash of a byte string, over lists of bytes and 32-bit words.

- `compress`: one application of the seven-round permutation to a block.
- `chunkRoot`: the last block of one chunk of at most 1024 bytes, with everything before it absorbed.
- `subtree`: the binary tree over the chunks; the left half is the largest power of two of chunks that
  leaves something for the right half.
- `digest`: the first 32 bytes of the root.
-/

namespace Depot.Digest.Blake3

/-- The eight words a chunk starts from. -/
def initial : Vector UInt32 8 :=
  #v[0x6A09E667, 0xBB67AE85, 0x3C6EF372, 0xA54FF53A, 0x510E527F, 0x9B05688C, 0x1F83D9AB, 0x5BE0CD19]

/-- Where each message word of the next round comes from. -/
def schedule : Vector (Fin 16) 16 :=
  #v[2, 6, 3, 10, 7, 0, 4, 13, 1, 11, 12, 5, 9, 14, 15, 8]

def chunkStart : UInt32 := 1
def chunkEnd : UInt32 := 2
def parentFlag : UInt32 := 4
def rootFlag : UInt32 := 8

/-- Bytes in one chunk, the leaves of the tree. -/
def chunkBytes : Nat := 1024

/-- Bytes in one block, the unit of compression. -/
def blockBytes : Nat := 64

def rotateRight (word : UInt32) (count : UInt32) : UInt32 :=
  (word >>> count) ||| (word <<< (32 - count))

abbrev Words := Vector UInt32 16

/-- The quarter round on the positions `a`, `b`, `c`, `d` with two message words. -/
def quarter (v : Words) (a b c d : Fin 16) (x y : UInt32) : Words :=
  let v := v.set a (v[a] + v[b] + x)
  let v := v.set d (rotateRight (v[d] ^^^ v[a]) 16)
  let v := v.set c (v[c] + v[d])
  let v := v.set b (rotateRight (v[b] ^^^ v[c]) 12)
  let v := v.set a (v[a] + v[b] + y)
  let v := v.set d (rotateRight (v[d] ^^^ v[a]) 8)
  let v := v.set c (v[c] + v[d])
  v.set b (rotateRight (v[b] ^^^ v[c]) 7)

/-- One round: the four columns, then the four diagonals. -/
def round (v m : Words) : Words :=
  let v := quarter v 0 4 8 12 m[0] m[1]
  let v := quarter v 1 5 9 13 m[2] m[3]
  let v := quarter v 2 6 10 14 m[4] m[5]
  let v := quarter v 3 7 11 15 m[6] m[7]
  let v := quarter v 0 5 10 15 m[8] m[9]
  let v := quarter v 1 6 11 12 m[10] m[11]
  let v := quarter v 2 7 8 13 m[12] m[13]
  quarter v 3 4 9 14 m[14] m[15]

/-- `count` rounds, the message permuted between them. -/
def rounds : Nat → Words → Words → Words
  | 0, v, _ => v
  | count + 1, v, m => rounds count (round v m) (schedule.map fun i => m[i])

/-- An uncompressed node of the tree: all that the compression of its last block depends on. -/
structure Node where
  chaining : Vector UInt32 8
  message : Words
  counter : UInt64
  length : UInt32
  flags : UInt32

/-- The eight words that a compressed node hands to its parent. -/
def compress (node : Node) : Vector UInt32 8 :=
  let h := node.chaining
  let start : Words := #v[h[0], h[1], h[2], h[3], h[4], h[5], h[6], h[7],
    initial[0], initial[1], initial[2], initial[3],
    node.counter.toUInt32, (node.counter >>> 32).toUInt32, node.length, node.flags]
  let v := rounds 7 start node.message
  Vector.ofFn fun i : Fin 8 =>
    have := i.isLt
    v[i.val] ^^^ v[i.val + 8]

/-- The little-endian words of a block, zeros standing for bytes that are not there. -/
def wordsOf (block : List UInt8) : Words :=
  let bytes := block.toArray
  Vector.ofFn fun i : Fin 16 =>
    let byte (k : Nat) : UInt32 := (bytes.getD (4 * i.val + k) 0).toUInt32
    byte 0 ||| (byte 1 <<< 8) ||| (byte 2 <<< 16) ||| (byte 3 <<< 24)

/-! ## Chunks -/

/-- The node of the last block of a chunk, given the chaining words and flags that reach `bytes`. -/
def chunkNode (counter : UInt64) (bytes : List UInt8) (chaining : Vector UInt32 8) (flags : UInt32) :
    Node :=
  if bytes.length ≤ blockBytes then
    ⟨chaining, wordsOf bytes, counter, bytes.length.toUInt32, flags ||| chunkEnd⟩
  else
    let block : Node := ⟨chaining, wordsOf (bytes.take blockBytes), counter, blockBytes.toUInt32, flags⟩
    chunkNode counter (bytes.drop blockBytes) (compress block) 0
termination_by bytes.length
decreasing_by simp_all [blockBytes]; omega

/-! ## The tree -/

/-- Bytes of the left half of a subtree of `size` bytes. -/
def leftBytes (size : Nat) : Nat :=
  chunkBytes <<< Nat.log2 ((size - 1) / chunkBytes)

theorem leftBytes_pos (size : Nat) : 0 < leftBytes size := by
  simp only [leftBytes, Nat.shiftLeft_eq]
  exact Nat.mul_pos (by decide) (Nat.two_pow_pos _)

theorem leftBytes_lt {size : Nat} (hsize : chunkBytes < size) : leftBytes size < size := by
  have hchunks : (size - 1) / chunkBytes ≠ 0 := by
    simp only [chunkBytes] at *
    omega
  have hpow : 2 ^ Nat.log2 ((size - 1) / chunkBytes) ≤ (size - 1) / chunkBytes := Nat.log2_self_le hchunks
  have hmul : chunkBytes * ((size - 1) / chunkBytes) ≤ size - 1 := Nat.mul_div_le _ _
  have := Nat.mul_le_mul_left chunkBytes hpow
  simp only [leftBytes, Nat.shiftLeft_eq]
  omega

/-- The node above two compressed halves. -/
def parentNode (left right : Vector UInt32 8) : Node :=
  ⟨initial, left ++ right, 0, blockBytes.toUInt32, parentFlag⟩

/-- The top node of the tree over `bytes`, whose first chunk has number `first`. -/
def subtree (first : Nat) (bytes : List UInt8) : Node :=
  if bytes.length ≤ chunkBytes then
    chunkNode first.toUInt64 bytes initial chunkStart
  else
    let left := leftBytes bytes.length
    parentNode (compress (subtree first (bytes.take left)))
      (compress (subtree (first + left / chunkBytes) (bytes.drop left)))
termination_by bytes.length
decreasing_by
  · have := leftBytes_lt (Nat.lt_of_not_le ‹_›)
    simp only [List.length_take]
    omega
  · have := leftBytes_pos bytes.length
    have := Nat.lt_of_not_le ‹_›
    simp only [List.length_drop, chunkBytes] at *
    omega

/-- The words of the hash: the top node compressed as the root. -/
def rootWords (bytes : List UInt8) : Vector UInt32 8 :=
  let top := subtree 0 bytes
  compress { top with flags := top.flags ||| rootFlag }

/-- The 32 bytes of the hash: its words with their lowest bytes first. -/
def digest (bytes : List UInt8) : Vector UInt8 32 :=
  let words := rootWords bytes
  Vector.ofFn fun i : Fin 32 =>
    have := i.isLt
    (words[i.val / 4] >>> (8 * (i.val % 4)).toUInt32).toUInt8

end Depot.Digest.Blake3
