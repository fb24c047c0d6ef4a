import Depot.Text.Utf8

/-!
# A volume of files

Directories, files and symbolic links, each under the list of names that leads to it from the top.

- `Volume.walk`: where a path leads, links followed.
- `Volume.stat`: what is there.
- `Volume.makeDirectories`, `Volume.write`, `Volume.rename`, `Volume.unlink`: changes, each of which fails
  the way files do.
-/

namespace Depot.Objects

/-- A name in a directory. -/
inductive Name where
  | plain (text : String)
  /-- The name of a file that is being written and will replace `text`; the serial number tells writers
  apart. -/
  | scratch (text : String) (serial : Nat)
  deriving DecidableEq, Repr

/-- How long a name is; a scratch name adds `.tmp.` and an identifier of 36 characters. -/
def Name.size : Name → Nat
  | plain text => text.utf8ByteSize
  | scratch text _ => text.utf8ByteSize + 41

/-- Names from the top of the volume. -/
abbrev Path := List Name

inductive Entry where
  | directory
  | file (data : List UInt8)
  | link (target : Path)
  deriving DecidableEq

/-- Why a path leads nowhere, or not to what was asked for. -/
inductive PathFault where
  | missing
  | occupied
  | notDirectory
  | isDirectory
  | nameTooLong
  | tooManyLinks
  deriving DecidableEq, Repr

def PathFault.message : PathFault → String
  | missing => "No such file or directory (os error 2)"
  | occupied => "File exists (os error 17)"
  | notDirectory => "Not a directory (os error 20)"
  | isDirectory => "Is a directory (os error 21)"
  | nameTooLong => "File name too long (os error 36)"
  | tooManyLinks => "Too many levels of symbolic links (os error 40)"

/-- A path as it was spelled; with a slash at its end it means a directory. -/
structure Location where
  path : Path
  asDirectory : Bool
  deriving DecidableEq

structure Volume where
  entries : List (Path × Entry)

namespace Volume

/-- Most bytes of one name. -/
def maxName : Nat := 255

/-- Most bytes of a path. -/
def maxPath : Nat := 4095

/-- Most links that are followed on one walk. -/
def maxLinks : Nat := 40

/-- What stands at a path, links not followed; at the top there is a directory. -/
def entry? (v : Volume) (p : Path) : Option Entry :=
  if p = [] then some .directory else v.entries.lookup p

def erase (v : Volume) (p : Path) : Volume :=
  ⟨v.entries.filter fun e => e.1 ≠ p⟩

def set (v : Volume) (p : Path) (e : Entry) : Volume :=
  ⟨(p, e) :: (v.erase p).entries⟩

/-- The volume without a path and all below it. -/
def eraseTree (v : Volume) (p : Path) : Volume :=
  ⟨v.entries.filter fun e => !p.isPrefixOf e.1⟩

/-- Where names lead from a directory. Links on the way are followed, one at the end only if `follow` says
so; what the last name means need not exist. -/
def walk (v : Volume) (follow : Bool) (links : Nat) (dir : Path) : Path → Except PathFault Path
  | [] => .ok dir
  | name :: rest =>
    if v.entry? dir ≠ some .directory then .error .notDirectory
    else if maxName < name.size then .error .nameTooLong
    else
      match v.entry? (dir ++ [name]) with
      | none => if rest = [] then .ok (dir ++ [name]) else .error .missing
      | some (.link target) =>
        if rest = [] ∧ follow = false then .ok (dir ++ [name])
        else
          match links with
          | 0 => .error .tooManyLinks
          | links + 1 => v.walk follow links [] (target ++ rest)
      | some _ => v.walk follow links (dir ++ [name]) rest
  termination_by rest => (links, rest.length)

/-- How many bytes a path has when it is written out. -/
def pathSize (p : Path) : Nat := p.foldl (fun size name => size + name.size + 1) 0

def resolve (v : Volume) (follow : Bool) (p : Path) : Except PathFault Path :=
  if maxPath < pathSize p then .error .nameTooLong else v.walk follow maxLinks [] p

/-- What stands at a location, and where that is. -/
def stat (v : Volume) (follow : Bool) (l : Location) : Except PathFault (Path × Entry) := do
  let p ← v.resolve (follow || l.asDirectory) l.path
  match v.entry? p with
  | none => throw .missing
  | some e => if l.asDirectory ∧ e ≠ .directory then throw .notDirectory else return (p, e)

/-- Makes one directory, if it is not there. -/
def makeDirectory (v : Volume) (p : Path) : Except PathFault Volume := do
  let q ← v.resolve true p
  match v.entry? q with
  | none => return v.set q .directory
  | some .directory => return v
  | some _ => throw .occupied

/-- Makes the directories that lead from `done` along the names; those made before a failure stay. -/
def makeDirectoriesFrom (v : Volume) (done : Path) : Path → Except PathFault Unit × Volume
  | [] => (.ok (), v)
  | name :: rest =>
    match v.makeDirectory (done ++ [name]) with
    | .ok next => next.makeDirectoriesFrom (done ++ [name]) rest
    | .error fault => (.error fault, v)

def makeDirectories (v : Volume) (p : Path) : Except PathFault Unit × Volume :=
  v.makeDirectoriesFrom [] p

/-- Writes a file that was not there, or replaces it. -/
def write (v : Volume) (p : Path) (data : List UInt8) : Except PathFault Volume := do
  let q ← v.resolve true p
  match v.entry? q with
  | some .directory => throw .isDirectory
  | _ => return v.set q (.file data)

/-- Moves a file; what stands at the new location is replaced, unless it is a directory. -/
def rename (v : Volume) (old : Path) (new : Location) : Except PathFault Volume := do
  let p ← v.resolve false old
  let q ← v.resolve false new.path
  match v.entry? p with
  | none => throw .missing
  | some e =>
    if new.asDirectory then throw .notDirectory
    else if v.entry? q = some .directory then throw .isDirectory
    else return (v.erase p).set q e

/-- Removes a file or a link. -/
def unlink (v : Volume) (l : Location) : Except PathFault Volume := do
  let (p, e) ← v.stat false l
  if e = .directory then throw .isDirectory else return v.erase p

end Volume

end Depot.Objects
