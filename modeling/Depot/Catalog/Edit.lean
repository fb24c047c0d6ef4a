import Depot.Catalog.Request

/-!
# Edits of single rows

What a database tool can do to the rows of a catalog behind its back. Setting a level makes the grant if
there is none. Each edit answers how many rows it changed.
-/

namespace Depot.Catalog

/-- One edit of rows. -/
inductive Edit where
  | deleteChunk (fileHash : String) (index : Int)
  | setTeamLevel (userId teamId : String) (level : Int)
  | setProjectLevel (userId : String) (projectId : Int) (level : Int)
  | setRevisionHash (revisionId : Int) (contentHash : String)
  | setRevisionChunks (revisionId : Int) (count : Int)
  | setMarker (value : String)
  | dropMarkerRow

/-- The rows that satisfy a condition changed, and how many there are. -/
def changeRows (rows : List α) (picked : α → Bool) (change : α → α) : Nat × List α :=
  ((rows.filter picked).length, rows.map fun row => if picked row then change row else row)

/-- Carries an edit out. -/
def edit (c : Catalog) : Edit → Nat × Catalog
  | .deleteChunk fileHash index =>
    let picked (k : Chunk) := k.fileHash == fileHash && k.index == index
    ((c.chunks.filter picked).length, { c with chunks := c.chunks.filter fun k => !picked k })
  | .setTeamLevel userId teamId level =>
    let others := c.teamGrants.filter fun g => !(g.userId == userId && g.teamId == teamId)
    (1, { c with teamGrants := others ++ [⟨userId, teamId, level, .epoch⟩] })
  | .setProjectLevel userId projectId level =>
    let others := c.projectGrants.filter fun g => !(g.userId == userId && g.projectId == projectId)
    (1, { c with projectGrants := others ++ [⟨userId, projectId, level, .epoch⟩] })
  | .setRevisionHash revisionId contentHash =>
    let (count, revisions) := changeRows c.revisions (fun r => r.revisionId == revisionId) fun r =>
      { r with contentHash }
    (count, { c with revisions })
  | .setRevisionChunks revisionId count =>
    let (changed, revisions) := changeRows c.revisions (fun r => r.revisionId == revisionId) fun r =>
      { r with chunkCount := count }
    (changed, { c with revisions })
  | .setMarker value =>
    match c.marker with
    | some _ => (1, { c with marker := some (some value) })
    | none => (0, c)
  | .dropMarkerRow => (c.marker.elim 0 fun _ => 1, { c with marker := none })

end Depot.Catalog
