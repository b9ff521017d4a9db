import TinFaces.Mesh.Chain
import TinFaces.Mesh.EdgePool
import TinFaces.Triangulation

/-!
# Quad-edge meshes

A mesh keeps the positions of its vertices, its edges in a pool, and the
constraints that were registered with it. The hull is closed with ghost faces:
a hull edge `a → b` has the face `b, a, ghost` on its right, so that every
directed edge has one face on its left.

A question about an edge whose slot does not exist faults; `isValid` checks that
the live edges are linked into triangles.
-/

namespace TinFaces

/-- A triangulated network stored as quad-edges. -/
structure Mesh where
  vertices : Array Point := #[]
  pool : EdgePool := {}
  /-- The registered constraints; the position of each is its id. -/
  chains : Array Chain := #[]
  /-- How many triangles there are, ghost faces not counted. -/
  numTriangles : Nat := 0
deriving DecidableEq, Repr

namespace Mesh

/-- An empty mesh with room for some vertices and triangles. The room shows in
no result, but its size has to be a count. The fault of asking for more points
or pairs than can be addressed is left out: what a pair takes in memory is not
part of the model. -/
def withCapacity (numVertices numTriangles : Nat) : Except Fault Mesh := do
  let faces ← addCounts numVertices numTriangles
  let _pairs ← addCounts faces (numTriangles / 2)
  return {}

/-! ## Vertices -/

def numVertices (m : Mesh) : Nat := m.vertices.size

/-- The ids of all vertices, in ascending order. -/
def vertexIds (m : Mesh) : List VertexId := (List.range m.numVertices).map VertexId.mk

/-- Where a vertex lies. -/
def position (m : Mesh) (v : VertexId) : Except Fault Point := readAt m.vertices v.index

/-- Adds a vertex that belongs to no triangle. -/
def addVertex (m : Mesh) (p : Point) : VertexId × Mesh :=
  (⟨m.numVertices⟩, { m with vertices := m.vertices.push p })

/-! ## Edges -/

/-- How many undirected edges there are, ghost edges included. -/
def numEdges (m : Mesh) : Nat := m.pool.numLivePairs

/-- Where `e` starts; `none` is the ghost vertex. -/
def origin (m : Mesh) (e : EdgeId) : Except Fault (Option VertexId) :=
  (·.origin) <$> m.pool.side e

/-- Where `e` ends; `none` is the ghost vertex. -/
def destination (m : Mesh) (e : EdgeId) : Except Fault (Option VertexId) := m.origin e.dual

/-- The next edge around the face on the left of `e`. -/
def forward (m : Mesh) (e : EdgeId) : Except Fault EdgeId := (·.forward) <$> m.pool.side e

/-- The previous edge around the face on the left of `e`. -/
def reverse (m : Mesh) (e : EdgeId) : Except Fault EdgeId := (·.reverse) <$> m.pool.side e

/-- Whether a constraint runs along `e`. -/
def isConstrained (m : Mesh) (e : EdgeId) : Except Fault Bool :=
  (·.constrained) <$> m.pool.pair e

/-- Whether `e` borders a constrained region. -/
def isRegionBorder (m : Mesh) (e : EdgeId) : Except Fault Bool :=
  (·.regionBorder) <$> m.pool.pair e

/-- The directed edge from `a` to `b`, in the first pair that joins them. -/
def findEdge (m : Mesh) (a b : VertexId) : Option EdgeId :=
  m.pool.baseEdges.findSome? fun e => do
    let pair ← m.pool.pair? e
    if pair.base.origin = some a ∧ pair.dual.origin = some b then some e
    else if pair.base.origin = some b ∧ pair.dual.origin = some a then some e.dual
    else none

/-! ## Validity -/

/-- Whether `e` and its two neighbours are live and linked into a triangle in
which `e` ends where its forward neighbour starts. -/
def isLinked (m : Mesh) (e : EdgeId) : Bool :=
  match m.pool.side? e, m.pool.side? e.dual with
  | some side, some twin =>
      match m.pool.side? side.forward, m.pool.side? side.reverse with
      | some next, some previous =>
          next.forward == side.reverse && previous.forward == e &&
            next.reverse == e && previous.reverse == side.forward &&
            next.origin == twin.origin &&
            m.pool.isLive side.forward.slot && m.pool.isLive side.reverse.slot
      | _, _ => false
  | _, _ => false

/-- Whether an end of the pair of `e` is a vertex. -/
def touchesVertex (m : Mesh) (e : EdgeId) : Bool :=
  match m.pool.pair? e with
  | some pair => pair.base.origin.isSome || pair.dual.origin.isSome
  | none => false

/-- Whether all live edges are linked into triangles and none joins the ghost
vertex to itself. -/
def isValid (m : Mesh) : Bool :=
  m.pool.baseEdges.all fun e => m.isLinked e && m.isLinked e.dual && m.touchesVertex e

/-! ## The mesh as traversals see it -/

/-- Whether the mesh has a triangle. -/
def isBootstrapped (m : Mesh) : Bool := 0 < m.numTriangles

/-- The answers of the mesh to a traversal. An edge counts as a whole word, which
it is if ids are 64 bits wide. A list of narrower ids could be addressed up to
twice the length, but such lengths are beyond any memory. -/
def surface (m : Mesh) : Surface VertexId EdgeId where
  isBootstrapped := m.isBootstrapped
  maxEdgeIndex := m.pool.maxIndex
  edgeBytes := wordBytes
  baseEdges := m.pool.baseEdges
  edgeIndex e := .ok e.index
  origin := m.origin
  dual e := .ok e.dual
  forward := m.forward
  reverse := m.reverse
  isRegionBorder := m.isRegionBorder
  position := m.position

/-- A chain as a walk over the mesh sees it. -/
def constraintOf (m : Mesh) (chain : Chain) : Constraint VertexId EdgeId where
  mesh? := some m.surface.toTriangulation
  definesRegion := chain.closed
  linkingEdge? := chain.linkingEdge?

/-- The registered constraints as a walk sees them, in the order of their ids. -/
def constraints (m : Mesh) : List (Constraint VertexId EdgeId) :=
  m.chains.toList.map m.constraintOf

end Mesh

/-- A chain on its own, which no mesh manages. -/
def Chain.detached (chain : Chain) : Constraint VertexId EdgeId where
  mesh? := none
  definesRegion := chain.closed
  linkingEdge? := chain.linkingEdge?

end TinFaces
