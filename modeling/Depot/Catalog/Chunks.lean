import Depot.Catalog.Rows
import Depot.Content.Block

/-!
# Blocks and chunks

- A block is recorded once and cannot be removed while a chunk refers to it.
- A chunk is staged for its uploader until all positions of the file are; then the blocks either compose
  the file's hash and enter the catalog together, or are dropped together.
- A file in the catalog is `complete`: it has as many rows as each of them says.
-/

namespace Depot.Catalog

open Content Time

/-! ## Blocks -/

def block? (c : Catalog) (blockHash : String) : Option StoredBlock :=
  c.blocks.find? fun b => b.blockHash == blockHash

/-- Records a block unless one with its hash is there. -/
def putBlock (c : Catalog) (block : StoredBlock) : InsertOutcome × Catalog :=
  match c.block? block.blockHash with
  | some _ => (.alreadyExists, c)
  | none => (.inserted, { c with blocks := c.blocks ++ [block] })

/-- Some chunk, staged or not, refers to the block. -/
def isReferenced (c : Catalog) (blockHash : String) : Bool :=
  c.chunks.any (fun k => k.blockHash == blockHash) || c.staged.any fun s => s.chunk.blockHash == blockHash

/-- Removes a block that no chunk refers to, and tells whether it was there. -/
def deleteBlock (c : Catalog) (blockHash : String) : Except StoreError (Bool × Catalog) :=
  match c.block? blockHash with
  | none => .ok (false, c)
  | some _ =>
    if c.isReferenced blockHash then .error (Violation.foreignKey.classify s!"block {blockHash}")
    else .ok (true, { c with blocks := c.blocks.filter fun b => b.blockHash != blockHash })

/-! ## The chunks of a file -/

def byIndex (a b : Chunk) : Bool := decide (a.index ≤ b.index)

/-- The catalogued chunks of a file in the order of their indexes. -/
def listChunks (c : Catalog) (fileHash : String) : List Chunk :=
  (c.chunks.filter fun k => k.fileHash == fileHash).mergeSort byIndex

def countRegistered (c : Catalog) (fileHash : String) : Nat :=
  (c.chunks.filter fun k => k.fileHash == fileHash).length

/-- The greatest of some numbers. -/
def greatest? (numbers : List Int) : Option Int :=
  numbers.foldl (fun best n => some (best.elim n (max n))) none

/-- The number of chunks of a file, if all of them are catalogued. -/
def completeCount? (c : Catalog) (fileHash : String) : Option Int :=
  let rows := c.chunks.filter fun k => k.fileHash == fileHash
  (greatest? (rows.map Chunk.count)).filter fun count => rows.length == count

def isFileComplete (c : Catalog) (fileHash : String) : Bool := (c.completeCount? fileHash).isSome

/-- The files that are not complete, each once, in the order in which they are first named. -/
def missingFiles (c : Catalog) (fileHashes : List String) : List String :=
  fileHashes.eraseDups.filter fun f => !c.isFileComplete f

/-! ## Staging -/

/-- The row is staged by this uploader for this file. -/
def isStagedFor (uploader fileHash : String) (s : StagedChunk) : Bool :=
  s.uploader == uploader && s.chunk.fileHash == fileHash

/-- What an uploader has staged for a file, in the order of the indexes. -/
def stagedFor (c : Catalog) (uploader fileHash : String) : List Chunk :=
  ((c.staged.filter (isStagedFor uploader fileHash)).map StagedChunk.chunk).mergeSort byIndex

def countStaged (c : Catalog) (uploader fileHash : String) : Nat :=
  (c.staged.filter (isStagedFor uploader fileHash)).length

/-- Drops all that an uploader has staged for a file. -/
def unstage (c : Catalog) (uploader fileHash : String) : Catalog :=
  { c with staged := c.staged.filter fun s => !isStagedFor uploader fileHash s }

/-- Puts a chunk at its position among what its uploader has staged for the file. Positions that belong to
another number of chunks are dropped. -/
def stage (c : Catalog) (uploader : String) (chunk : Chunk) : Catalog :=
  let replaced (s : StagedChunk) : Bool :=
    isStagedFor uploader chunk.fileHash s && (s.chunk.count != chunk.count || s.chunk.index == chunk.index)
  { c with staged := (c.staged.filter fun s => !replaced s) ++ [⟨uploader, chunk⟩] }

/-- Moves what an uploader has staged for a file into the catalog once all positions are there. Blocks
that do not compose the file's hash are dropped instead. -/
def promote (c : Catalog) (uploader : String) (chunk : Chunk) : Except StoreError InsertOutcome × Catalog :=
  let staged := c.stagedFor uploader chunk.fileHash
  if (staged.length : Int) ≠ chunk.count then (.ok .inserted, c)
  else
    let rest := c.unstage uploader chunk.fileHash
    if blocksCompose chunk.fileHash (staged.map Chunk.blockHash) then
      (.ok .inserted, { rest with chunks := rest.chunks ++ staged })
    else
      (.error (.constraint s!"blocks uploaded for file {chunk.fileHash} do not compose its hash"), rest)

/-- Checks a chunk of a file that is in the catalog; `known` is one of the file's chunks. -/
def confirm (c : Catalog) (known : Chunk) (chunk : Chunk) : Except StoreError Unit :=
  if known.count ≠ chunk.count then
    .error (.constraint s!"file {chunk.fileHash} registered with {known.count} chunks, got {chunk.count}")
  else
    match (c.listChunks chunk.fileHash).find? fun k => k.index == chunk.index with
    | none => .error (Violation.rowNotFound.classify "")
    | some row =>
      if row.blockHash ≠ chunk.blockHash then
        .error (.constraint s!"file {chunk.fileHash} has block {row.blockHash} at index {chunk.index}")
      else .ok ()

/-- Registers a chunk for an uploader: against the catalog if the file is in it, else by staging. -/
def registerChunk (c : Catalog) (uploader : String) (chunk : Chunk) : Except StoreError InsertOutcome × Catalog :=
  if chunk.index < 0 ∨ chunk.count ≤ chunk.index then
    (.error (.constraint s!"chunk index {chunk.index} outside 0..{chunk.count} for file {chunk.fileHash}"), c)
  else
    match c.listChunks chunk.fileHash with
    | known :: _ =>
      match c.confirm known chunk with
      | .error e => (.error e, c)
      | .ok () => (.ok .alreadyExists, c.unstage uploader chunk.fileHash)
    | [] =>
      if (c.block? chunk.blockHash).isNone then
        (.error (Violation.foreignKey.classify s!"block {chunk.blockHash}"), c)
      else (c.stage uploader chunk).promote uploader chunk

end Depot.Catalog
