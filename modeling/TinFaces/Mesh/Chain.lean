import TinFaces.Index

/-!
# Chains of vertices

A chain describes a constraint: a sequence of vertices whose consecutive
segments are to be edges of a mesh. A closed chain bounds a region, which lies
to the left of its segments: inside a counter-clockwise chain, between the chain
and the hull for a clockwise one. An open chain only constrains edges.
-/

namespace TinFaces

/-- A constraint by its vertices, and what a mesh adds when it registers it. -/
structure Chain where
  vertices : List VertexId
  /-- Whether a segment leads back from the last vertex to the first. -/
  closed : Bool
  /-- The id under which a mesh has registered the chain. -/
  id? : Option ConstraintId := none
  /-- The first of its edges. -/
  linkingEdge? : Option EdgeId := none
  /-- The directed edges along the chain. -/
  edges : List EdgeId := []
deriving DecidableEq, Repr

namespace Chain

/-- A closed chain. The closing segment is implied: if the first vertex is
repeated at the end, the repetition is dropped. -/
def ring (vertices : List VertexId) : Chain where
  vertices :=
    if 1 < vertices.length ∧ vertices.head? = vertices.getLast? then vertices.dropLast
    else vertices
  closed := true

/-- An open chain. -/
def line (vertices : List VertexId) : Chain where
  vertices
  closed := false

/-- The segment from the last vertex to the first. -/
def closingSegment (vertices : List VertexId) : List (VertexId × VertexId) :=
  match vertices.getLast?, vertices.head? with
  | some last, some first => [(last, first)]
  | _, _ => []

/-- The segments in order, the closing one last. -/
def segments (chain : Chain) : List (VertexId × VertexId) :=
  chain.vertices.zip chain.vertices.tail ++
    if chain.closed then closingSegment chain.vertices else []

/-- How many vertices the chain needs at least. -/
def required (chain : Chain) : Nat := if chain.closed then 3 else 2

end Chain

end TinFaces
