import TinFaces.Fault

/-!
# Summaries

The counters that describe a traversal, and their sum.
-/

namespace TinFaces

/-- What a traversal counted. -/
structure Summary where
  /-- Faces claimed, ghost faces included. -/
  facesVisited : Nat := 0
  /-- Triangles reported. -/
  trianglesEmitted : Nat := 0
  /-- Ghost faces claimed without being reported. -/
  ghostsSuppressed : Nat := 0
  /-- Steps into a neighbouring face refused because the side between is a
  region border. -/
  borderCrossingsRefused : Nat := 0
  /-- Constrained regions walked. -/
  regionsWalked : Nat := 0
deriving DecidableEq, Repr

namespace Summary

/-- Adds the counters of another traversal, one after the other in the order of
the fields. When a sum is too large the counters before it have been added
already. -/
def merge (total other : Summary) : Outcome Summary :=
  .ofSteps total [
    fun s => do return { s with
      facesVisited := ← addCounts s.facesVisited other.facesVisited },
    fun s => do return { s with
      trianglesEmitted := ← addCounts s.trianglesEmitted other.trianglesEmitted },
    fun s => do return { s with
      ghostsSuppressed := ← addCounts s.ghostsSuppressed other.ghostsSuppressed },
    fun s => do return { s with
      borderCrossingsRefused :=
        ← addCounts s.borderCrossingsRefused other.borderCrossingsRefused },
    fun s => do return { s with
      regionsWalked := ← addCounts s.regionsWalked other.regionsWalked }]

instance : ToString Summary where
  toString s :=
    "TraversalSummary \x7b " ++
    s!"faces_visited: {s.facesVisited}, triangles_emitted: {s.trianglesEmitted}, " ++
    s!"ghosts_suppressed: {s.ghostsSuppressed}, " ++
    s!"border_crossings_refused: {s.borderCrossingsRefused}, " ++
    s!"regions_walked: {s.regionsWalked}" ++ " \x7d"

end Summary

end TinFaces
