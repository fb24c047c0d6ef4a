import Depot.Content.Block

/-!
# Pieces of a file

The pieces that a file is cut into make it up again, and none is longer than the block size. Hashes are of one
length, so a list of them is known from their bytes one behind another.
-/

namespace Depot.Content

theorem flatten_pieces (size : Nat) (data : List UInt8) : (pieces size data).flatten = data := by
  fun_induction pieces size data with
  | case1 data _ => simp
  | case2 data _ ih => rw [List.flatten_cons, ih, List.take_append_drop]

theorem length_le_of_mem_pieces {size : Nat} {data piece : List UInt8} (hpiece : piece ∈ pieces size data) :
    piece.length ≤ size + 1 := by
  fun_induction pieces size data with
  | case1 data hlast =>
    rw [List.mem_singleton.mp hpiece]
    simpa using hlast
  | case2 data _ ih =>
    rcases List.mem_cons.mp hpiece with rfl | hrest
    · exact List.length_take_le _ _
    · exact ih hrest

theorem pieces_ne_nil (size : Nat) (data : List UInt8) : pieces size data ≠ [] := by
  rw [pieces]
  split <;> exact List.cons_ne_nil _ _

theorem flatten_splitBlocks (data : List UInt8) (blockSize : Nat) : (splitBlocks data blockSize).flatten = data :=
  flatten_pieces _ _

theorem splitBlocks_ne_nil (data : List UInt8) (blockSize : Nat) : splitBlocks data blockSize ≠ [] :=
  pieces_ne_nil _ _

theorem length_le_of_mem_splitBlocks {data piece : List UInt8} {blockSize : Nat} (hsize : 1 ≤ blockSize)
    (hpiece : piece ∈ splitBlocks data blockSize) : piece.length ≤ blockSize := by
  have := length_le_of_mem_pieces hpiece
  omega

/-! ### Lists of hashes -/

/-- What is hashed for a file. -/
def hashBytes (blocks : List BlockHash) : List UInt8 := blocks.flatMap fun b => b.hash.bytes.toList

@[simp] theorem hashBytes_nil : hashBytes [] = [] := rfl

@[simp] theorem hashBytes_cons (b : BlockHash) (rest : List BlockHash) :
    hashBytes (b :: rest) = b.hash.bytes.toList ++ hashBytes rest := rfl

theorem hashBytes_injective {a b : List BlockHash} (h : hashBytes a = hashBytes b) : a = b := by
  induction a generalizing b with
  | nil =>
    cases b with
    | nil => rfl
    | cons y b =>
      have hlength := congrArg List.length h.symm
      simp at hlength
  | cons x a ih =>
    cases b with
    | nil =>
      have hlength := congrArg List.length h
      simp at hlength
    | cons y b =>
      rw [hashBytes_cons, hashBytes_cons] at h
      obtain ⟨hhead, htail⟩ := List.append_inj h (by simp)
      rw [ih htail, show x = y from congrArg (BlockHash.mk ∘ Hash.mk) (Vector.toList_inj.mp hhead)]

end Depot.Content
