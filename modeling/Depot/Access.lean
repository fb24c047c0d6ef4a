import Depot.Json.Members

/-!
# Access levels

Five levels in ascending order. A user's level on a project comes from a grant on the project itself or
from a grant on the project's team; write access to a team gives `manage` on all its projects.
-/

namespace Depot

inductive AccessLevel where
  | none
  | read
  | write
  | manage
  | owner
  deriving DecidableEq, Repr, Inhabited

namespace AccessLevel

/-- The number under which a level is stored. -/
def code : AccessLevel → Nat
  | none => 0
  | read => 1
  | write => 2
  | manage => 3
  | owner => 4

/-- The level that a stored number means: below 1 there is none, above 4 there is no more. -/
def ofCode (code : Int) : AccessLevel :=
  if code ≤ 0 then none
  else if code = 1 then read
  else if code = 2 then write
  else if code = 3 then manage
  else owner

instance : LE AccessLevel := ⟨fun a b => a.code ≤ b.code⟩

instance (a b : AccessLevel) : Decidable (a ≤ b) := inferInstanceAs (Decidable (a.code ≤ b.code))

instance : Max AccessLevel := ⟨fun a b => if a ≤ b then b else a⟩

instance : Ord AccessLevel := ⟨fun a b => compare a.code b.code⟩

/-- The level on a project that a level on its team gives. -/
def ofTeam (team : AccessLevel) : AccessLevel :=
  if write ≤ team then manage else team

def canRead (level : AccessLevel) : Bool := decide (read ≤ level)
def canWrite (level : AccessLevel) : Bool := decide (write ≤ level)
def canManage (level : AccessLevel) : Bool := decide (manage ≤ level)

def name : AccessLevel → String
  | none => "none"
  | read => "read"
  | write => "write"
  | manage => "manage"
  | owner => "owner"

def all : List AccessLevel := [none, read, write, manage, owner]

instance : ToString AccessLevel := ⟨name⟩

def toJson (level : AccessLevel) : Json := .str level.name

def ofJson? (json : Json) : Option AccessLevel := json.unitVariant? (all.map fun level => (level.name, level))

end AccessLevel

end Depot
