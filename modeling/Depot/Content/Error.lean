/-!
# What can be wrong with a value

The causes for which a hash, a path, a change or a chunk is refused, and their wording.
-/

namespace Depot.Content

inductive Error where
  | invalidHash (reason : String)
  | hashMismatch (expected actual : String)
  | invalidPath (reason : String)
  | invalidChangeKind (code : String)
  | invalidChunk (reason : String)
  | invalidBlockSize (size max : Nat)
  | serialization (reason : String)
  deriving DecidableEq, Repr

def Error.message : Error → String
  | invalidHash reason => s!"invalid hash: {reason}"
  | hashMismatch expected actual => s!"hash mismatch: expected {expected}, got {actual}"
  | invalidPath reason => s!"invalid path: {reason}"
  | invalidChangeKind code => s!"invalid change kind: {code}"
  | invalidChunk reason => s!"invalid chunk: {reason}"
  | invalidBlockSize size max => s!"invalid block size: {size} (max {max})"
  | serialization reason => s!"serialization error: {reason}"

end Depot.Content
