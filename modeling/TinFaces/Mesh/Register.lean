import TinFaces.Error
import TinFaces.Mesh.Basic
import TinFaces.Record

/-!
# Registering constraints

A chain can be registered if it is long enough, all its vertices belong to the
mesh and an edge runs along each of its segments. Registering inserts no edges:
it flags those along the chain, as borders too if the chain is closed, and
stores the chain with its id, its edges and its linking edge. Whatever these
three were in the chain that is given, they are computed afresh.
-/

namespace TinFaces

/-- A constraint that has been registered, and the mesh that holds it now. -/
structure Registration where
  id : ConstraintId
  chain : Chain
  mesh : Mesh
deriving DecidableEq, Repr

namespace Registration

/-- The log of a registration. -/
def log (r : Registration) : List (Record VertexId EdgeId) :=
  [.constraintAdded r.id r.chain.edges.length r.chain.closed]

end Registration

namespace Mesh

/-- The edge along a segment. -/
def segmentEdge (m : Mesh) (segment : VertexId × VertexId) : Except Error EdgeId :=
  match m.findEdge segment.1 segment.2 with
  | some e => .ok e
  | none => .error (.missingConstraintEdge segment.1.index segment.2.index)

/-- The edges along a chain, or the first reason why it cannot be registered. -/
def chainEdges (m : Mesh) (chain : Chain) : Except Error (List EdgeId) := do
  if chain.vertices.length < chain.required then
    throw (.constraintTooShort chain.required chain.vertices.length)
  if let some v := chain.vertices.find? fun v => m.numVertices ≤ v.index then
    throw (.notAVertex (toString v.index))
  chain.segments.mapM m.segmentEdge

/-- Registers a chain that runs along the given edges. -/
def store (m : Mesh) (chain : Chain) (edges : List EdgeId) : Registration :=
  let id : ConstraintId := ⟨m.chains.size⟩
  let stored := { chain with id? := some id, linkingEdge? := edges.head?, edges }
  { id
    chain := stored
    mesh := { m with
      pool := m.pool.constrain edges chain.closed
      chains := m.chains.push stored } }

/-- Registers a chain as a constraint of the mesh. -/
def register (m : Mesh) (chain : Chain) : Except Error Registration :=
  m.store chain <$> m.chainEdges chain

/-- The constraint registered under an id. -/
def chain? (m : Mesh) (id : ConstraintId) : Option Chain := m.chains[id.index]?

end Mesh

end TinFaces
