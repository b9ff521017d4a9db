import TinFaces.Fault
import TinFaces.Geometry

/-!
# Triangulations

What a traversal may ask of a triangulated network: per directed edge, where it
starts, its dual, and its neighbours around the face on its left. Traversals
read a mesh through these questions only, so they run over anything that can
answer them, including a mesh that breaks every law one would expect of it.
A question about an edge the mesh does not have may fault.

The exterior is closed off by ghost faces: a vertex is `none` where the edge
touches the ghost vertex.
-/

namespace TinFaces

/-- The answers of a mesh with vertices `V` and directed edges `E`. -/
structure Triangulation (V E : Type) where
  /-- Whether the mesh has a triangle at all. -/
  isBootstrapped : Bool
  /-- The largest edge index ever handed out. -/
  maxEdgeIndex : Nat
  /-- How many bytes an edge takes in a list. -/
  edgeBytes : Nat
  /-- One directed edge per undirected edge. -/
  baseEdges : List E
  /-- The index under which the flags of an edge are kept. -/
  edgeIndex : E → Except Fault Nat
  /-- Where an edge starts; `none` is the ghost vertex. -/
  origin : E → Except Fault (Option V)
  /-- The same undirected edge in the opposite direction. -/
  dual : E → Except Fault E
  /-- The next edge around the face on the left. -/
  forward : E → Except Fault E
  /-- The previous edge around the face on the left. -/
  reverse : E → Except Fault E
  /-- Whether an edge borders a constrained region. -/
  isRegionBorder : E → Except Fault Bool

/-- A triangulation whose vertices have positions. -/
structure Surface (V E : Type) extends Triangulation V E where
  position : V → Except Fault Point

/-- A constraint as a region walk sees it. -/
structure Constraint (V E : Type) where
  /-- The mesh that manages the constraint, if one does. -/
  mesh? : Option (Triangulation V E)
  /-- Whether the constraint bounds a region, which then lies on its left. -/
  definesRegion : Bool
  /-- An edge of the constraint whose left face is in the region. -/
  linkingEdge? : Option E

namespace Triangulation

variable {V E : Type}

/-- Where an edge ends; `none` is the ghost vertex. -/
def destination (T : Triangulation V E) (e : E) : Except Fault (Option V) := do
  T.origin (← T.dual e)

/-- Whether an end of the edge is the ghost vertex. The destination is looked at
only if the origin is not it. -/
def isGhostEdge (T : Triangulation V E) (e : E) : Except Fault Bool := do
  match ← T.origin e with
  | none => return true
  | some _ => return (← T.destination e).isNone

/-- The vertices of the triangle with these edges, or `none` from the first edge
on that starts at the ghost vertex. -/
def vertices (T : Triangulation V E) (edges : Triangle E) :
    Except Fault (Option (Triangle V)) := do
  let some a ← T.origin edges.first | return none
  let some b ← T.origin edges.second | return none
  let some c ← T.origin edges.third | return none
  return some ⟨a, b, c⟩

/-- The dual of each edge of a triangle, which bounds the triangle beyond. -/
def neighbors (T : Triangulation V E) (edges : Triangle E) : Except Fault (Triangle E) :=
  edges.mapM T.dual

end Triangulation

namespace Surface

variable {V E : Type}

/-- The corners of the triangle with these edges, unless it touches the ghost
vertex. -/
def corners (S : Surface V E) (edges : Triangle E) :
    Except Fault (Option (Triangle Point)) := do
  match ← S.vertices edges with
  | none => return none
  | some vertices => return some (← vertices.mapM S.position)

/-- The signed area of the triangle with these edges. -/
def area (S : Surface V E) (edges : Triangle E) : Except Fault (Option Float) :=
  (Option.map Triangle.area) <$> S.corners edges

/-- The centroid of the triangle with these edges. -/
def centroid (S : Surface V E) (edges : Triangle E) : Except Fault (Option Point) :=
  (Option.map Triangle.centroid) <$> S.corners edges

end Surface

end TinFaces
