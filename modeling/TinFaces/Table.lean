import TinFaces.Triangulation

/-!
# Tables

A table states the answers of a mesh literally, edge by edge, and need not obey
any law. Vertices and edges are plain numbers; a question about an edge that has
no row faults.
-/

namespace TinFaces

namespace Table

/-- What a table says about one edge. -/
structure Row where
  origin : Option Nat
  dual : Nat
  forward : Nat
  reverse : Nat
  border : Bool
  index : Nat
deriving DecidableEq, Repr

/-- What a table says about one constraint. -/
structure Link where
  /-- Whether the mesh of the table manages the constraint. -/
  managed : Bool
  definesRegion : Bool
  linkingEdge? : Option Nat
deriving DecidableEq, Repr

end Table

/-- A mesh by its answers. -/
structure Table where
  isBootstrapped : Bool
  maxEdgeIndex : Nat
  baseEdges : List Nat
  rows : Array Table.Row
  positions : Array Point
  links : Array Table.Link
deriving DecidableEq, Repr

namespace Table

/-- The table as traversals see it. -/
def surface (table : Table) : Surface Nat Nat where
  isBootstrapped := table.isBootstrapped
  maxEdgeIndex := table.maxEdgeIndex
  edgeBytes := wordBytes
  baseEdges := table.baseEdges
  edgeIndex e := (·.index) <$> readAt table.rows e
  origin e := (·.origin) <$> readAt table.rows e
  dual e := (·.dual) <$> readAt table.rows e
  forward e := (·.forward) <$> readAt table.rows e
  reverse e := (·.reverse) <$> readAt table.rows e
  isRegionBorder e := (·.border) <$> readAt table.rows e
  position v := readAt table.positions v

/-- A constraint of the table as a walk sees it. -/
def constraintOf (table : Table) (link : Link) : Constraint Nat Nat where
  mesh? := if link.managed then some table.surface.toTriangulation else none
  definesRegion := link.definesRegion
  linkingEdge? := link.linkingEdge?

/-- The constraints of the table, in order. -/
def constraints (table : Table) : List (Constraint Nat Nat) :=
  table.links.toList.map table.constraintOf

end Table

end TinFaces
