import Depot.Service.Call

/-!
# Stores that fail

`FaultyStores` are stores whose next calls of some kinds fail, or answer what is not so. An operation that
runs over them shows what it makes of failures.
-/

namespace Depot.Service

open Objects

/-- Calls that can be made to fail. -/
inductive FaultTarget where
  | putStream
  | uploadWrite
  | uploadFinish
  | uploadAbort
  | objectExists
  | presign
  | objectHealth
  | registerChunk
  | createCommit
  | restoreCommit
  | deleteBlock
  | getBlock
  | catalogHealth
  | touchToken
  /-- A block that is recorded is not found. -/
  | getBlockNone
  /-- A commit answers that content is missing whose hash is none. -/
  | createCommitJunk
  deriving DecidableEq, Repr

/-- The name of a kind of failure, which is the name of the call that fails. -/
def FaultTarget.name : FaultTarget → String
  | putStream => "put_stream"
  | uploadWrite => "upload_write"
  | uploadFinish => "upload_finish"
  | uploadAbort => "upload_abort"
  | objectExists => "exists"
  | presign => "presign"
  | objectHealth => "health"
  | registerChunk => "register_chunk"
  | createCommit => "create_commit"
  | restoreCommit => "restore_commit"
  | deleteBlock => "delete_block"
  | getBlock => "get_block"
  | catalogHealth => "health_check"
  | touchToken => "touch_token"
  | getBlockNone => "get_block_none"
  | createCommitJunk => "create_commit_junk"

def FaultTarget.all : List FaultTarget :=
  [.putStream, .uploadWrite, .uploadFinish, .uploadAbort, .objectExists, .presign, .objectHealth, .registerChunk,
    .createCommit, .restoreCommit, .deleteBlock, .getBlock, .catalogHealth, .touchToken, .getBlockNone,
    .createCommitJunk]

structure FaultyStores where
  stores : Stores
  /-- How many calls of a kind will fail. -/
  pending : List (FaultTarget × Nat)

namespace FaultyStores

/-- How many calls will fail. -/
def count (s : FaultyStores) (t : FaultTarget) : Nat := (s.pending.lookup t).getD 0

/-- The next calls of a kind will fail. -/
def inject (s : FaultyStores) (t : FaultTarget) (times : Nat) : FaultyStores :=
  { s with pending := (t, times) :: s.pending.filter fun p => p.1 ≠ t }

/-- The first of the kinds that is to fail, and the stores with that failure used up. -/
def strike? (s : FaultyStores) : List FaultTarget → Option (FaultTarget × FaultyStores)
  | [] => none
  | t :: rest => if 0 < s.count t then some (t, s.inject t (s.count t - 1)) else s.strike? rest

/-- The kinds of failure that a call is open to. -/
def targets : Call → List FaultTarget
  | .catalog (.registerChunk _ _) => [.registerChunk]
  | .catalog (.createCommit _) => [.createCommit, .createCommitJunk]
  | .catalog (.restoreCommit _ _ _ _ _) => [.restoreCommit]
  | .catalog (.deleteBlock _) => [.deleteBlock]
  | .catalog (.getBlock _) => [.getBlock, .getBlockNone]
  | .catalog .healthCheck => [.catalogHealth]
  | .catalog (.touchToken _ _) => [.touchToken]
  | .objects (.openUpload _) => [.putStream]
  | .objects (.write _ _) => [.uploadWrite]
  | .objects (.finish _) => [.uploadFinish]
  | .objects (.abort _) => [.uploadAbort]
  | .objects (.contains _) => [.objectExists]
  | .objects (.presign _ _ _) => [.presign]
  | .objects .healthCheck => [.objectHealth]
  | _ => []

def offline : ObjectError := .io "disk offline"

/-- What a catalog that fails answers. -/
def catalogFault (t : FaultTarget) : Catalog.StoreError :=
  match t with
  | .registerChunk | .createCommit | .restoreCommit => .alreadyExists "injected sequence number"
  | t => .internal s!"injected {t.name} failure"

/-- The reply of a call that fails. -/
def failedReply (t : FaultTarget) : (c : Call) → c.Reply
  | .catalog (.getBlock _) => if t = .getBlockNone then .ok none else .error (catalogFault t)
  | .catalog (.createCommit _) =>
    if t = .createCommitJunk then .ok (.missingContent ["junk"]) else .error (catalogFault t)
  | .catalog _ => .error (catalogFault t)
  | .objects _ => .error offline

/-- What a call that fails does all the same: an upload is dropped when its end fails. -/
def remains (c : Call) (s : Stores) : Stores :=
  match c with
  | .objects (.finish upload) | .objects (.abort upload) => (s.answer (.objects (.abort upload))).2
  | _ => s

/-- Carries a call out, or lets it fail. -/
def answer (c : Call) (s : FaultyStores) : c.Reply × FaultyStores :=
  match s.strike? (targets c) with
  | some (t, next) => (failedReply t c, { next with stores := remains c next.stores })
  | none =>
    let (reply, stores) := s.stores.answer c
    (reply, { s with stores })

end FaultyStores

end Depot.Service
