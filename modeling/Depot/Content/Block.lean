import Depot.Content.Hash

/-!
# Blocks of a file

- `splitBlocks`: the blocks a file is stored in, all but the last of full size.
- `blocksCompose`: the blocks given by their texts make up the file given by its text.
- `InsertOutcome`: what became of a row that is keyed by its content.
-/

namespace Depot.Content

/-- Pieces of `size + 1` bytes, the last one shorter; at least one piece. -/
def pieces (size : Nat) (data : List UInt8) : List (List UInt8) :=
  if (data.drop (size + 1)).isEmpty then [data]
  else data.take (size + 1) :: pieces size (data.drop (size + 1))
termination_by data.length
decreasing_by simp_all; omega

/-- The blocks of a file in their order. An empty file has one empty block, and a size of 0 acts as 1. -/
def splitBlocks (data : List UInt8) (blockSize : Nat) : List (List UInt8) :=
  pieces (blockSize - 1) data

/-- The texts of the blocks are hashes whose file has the hash that `file` spells. -/
def blocksCompose (file : String) (blocks : List String) : Bool :=
  match FileHash.parse file, blocks.mapM BlockHash.parse with
  | .ok expected, .ok hashes => FileHash.ofBlocks hashes == expected
  | _, _ => false

/-- What became of a row that is keyed by its content; a row already there is no failure. -/
inductive InsertOutcome where
  | inserted
  | alreadyExists
  deriving DecidableEq, Repr

namespace InsertOutcome

def ofInserted (inserted : Bool) : InsertOutcome :=
  if inserted then .inserted else .alreadyExists

def isInserted (o : InsertOutcome) : Bool := o == .inserted

end InsertOutcome

end Depot.Content
