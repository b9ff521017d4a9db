import TinFaces.Mesh.Assembly
import TinFaces.Mesh.Basic
import TinFaces.Record

/-!
# Building meshes

A mesh is built from points and triangles over them; nothing is triangulated
here. The triangles have to be counter-clockwise in the x/y plane, each directed
side may belong to one of them only, and the hull has to be one simple loop. The
first offence in the order of the triangles is the one that is named.
-/

namespace TinFaces

/-- Settings of a build. -/
structure BuildOptions where
  /-- How many edge pairs are allocated before the first edge and freed after
  the last, which leaves a gap of unused indices below the live ones. -/
  reservedPairs : Nat := 0
deriving DecidableEq, Repr

/-- A mesh that has been built. -/
structure Built where
  mesh : Mesh
  hull : List HullSide
deriving DecidableEq, Repr

/-- The log of a build. -/
def Built.log (built : Built) : List (Record VertexId EdgeId) :=
  [.built built.mesh.numVertices built.mesh.numTriangles built.hull.length
    built.mesh.numEdges built.mesh.pool.maxIndex]

namespace Mesh

/-- The corners of the triangle at an index, or its first vertex that is no
point. -/
def cornersOf (points : Array Point) (index : Nat) (t : Triangle Nat) :
    Except Error (Triangle Point) :=
  t.mapM fun v =>
    match points[v]? with
    | some p => .ok p
    | none => .error (.invalidVertexIndex index v)

/-- Refuses a triangle that names no points, repeats a vertex, or has an area
that is zero or negative. An area that is not a number is neither. -/
def checkTriangle (points : Array Point) (index : Nat) (t : Triangle Nat) : Except Error Unit := do
  let corners ← cornersOf points index t
  if t.first = t.second ∨ t.second = t.third ∨ t.first = t.third then
    throw (.degenerateTriangle index)
  if corners.doubledArea == 0.0 then
    throw (.degenerateTriangle index)
  if corners.doubledArea < 0.0 then
    throw (.clockwiseTriangle index)

/-- Checks triangles that are numbered from `index` on. -/
def checkTriangles (points : Array Point) (index : Nat) : List (Triangle Nat) → Except Error Unit
  | [] => .ok ()
  | t :: rest => do
      checkTriangle points index t
      checkTriangles points (index + 1) rest

/-- Attaches the triangles, then the ghost faces beyond their hull. -/
def assemble (pool : EdgePool) (triangles : List (Triangle Nat)) :
    Except Error (Assembly × List HullSide) := do
  let faces ← triangles.foldlM Assembly.attach { pool }
  let hull := faces.hull triangles
  let closed ← hull.foldlM Assembly.attachGhost faces
  closed.checkTwins
  Hull.checkLoop hull
  return (closed, hull)

/-- Builds a mesh from points and counter-clockwise triangles. -/
def build (points : Array Point) (triangles : List (Triangle Nat)) (options : BuildOptions := {}) :
    Except Error Built := do
  if triangles.isEmpty then
    throw .emptyMesh
  checkTriangles points 0 triangles
  let (reserved, pool) := ({} : EdgePool).reserve options.reservedPairs
  let (assembly, hull) ← assemble pool triangles
  return {
    mesh :=
      { vertices := points
        pool := reserved.foldl EdgePool.deallocate assembly.pool
        numTriangles := triangles.length }
    hull }

end Mesh

end TinFaces
