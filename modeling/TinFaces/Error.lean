import TinFaces.Fault

/-!
# Errors

Why an input is refused. An error is an answer about the mesh, the triangles or
the constraint that was given; `Failure` joins it with the faults, which say
that a computation could not be carried out at all.
-/

namespace TinFaces

/-- Why a constraint cannot seed a region walk. -/
inductive ConstraintDefect where
  /-- It was never added to a mesh. -/
  | unmanaged
  /-- It encloses no region. -/
  | notARegion
  /-- It has no edge to start from. -/
  | missingLinkingEdge
deriving DecidableEq, Repr

/-- The text of a defect. -/
def ConstraintDefect.message : ConstraintDefect → String
  | .unmanaged => "constraint is not under TIN management"
  | .notARegion => "constraint does not define a constrained region"
  | .missingLinkingEdge => "constraint does not have a linking edge"

/-- Why a mesh cannot be built, a constraint not added or a region not walked. -/
inductive Error where
  | invalidArgument (defect : ConstraintDefect)
  /-- No triangles were given. -/
  | emptyMesh
  /-- A triangle names a vertex that does not exist. -/
  | invalidVertexIndex (triangle vertex : Nat)
  /-- A triangle repeats a vertex or has zero area. -/
  | degenerateTriangle (triangle : Nat)
  | clockwiseTriangle (triangle : Nat)
  /-- The directed side bounds two triangles. -/
  | nonManifoldEdge (origin destination : Nat)
  /-- The hull is not one loop that passes each vertex once. -/
  | nonManifoldBoundary (vertex : Nat)
  | constraintTooShort (required actual : Nat)
  /-- A segment of a constraint joins vertices that no edge joins. -/
  | missingConstraintEdge (origin destination : Nat)
  | invalidParameter (name value reason : String)
deriving DecidableEq, Repr

/-- The text of an error. -/
def Error.message : Error → String
  | .invalidArgument defect => "invalid argument: " ++ defect.message
  | .emptyMesh => "TIN has no triangles"
  | .invalidVertexIndex triangle vertex =>
      s!"triangle {triangle} references invalid vertex index {vertex}"
  | .degenerateTriangle triangle => s!"triangle {triangle} is degenerate"
  | .clockwiseTriangle triangle => s!"triangle {triangle} is wound clockwise"
  | .nonManifoldEdge origin destination =>
      s!"edge ({origin}, {destination}) is shared by more than two triangles " ++
        "or wound inconsistently"
  | .nonManifoldBoundary vertex => s!"hull is not a simple loop at vertex {vertex}"
  | .constraintTooShort required actual =>
      s!"constraint needs at least {required} vertices, got {actual}"
  | .missingConstraintEdge origin destination =>
      s!"constraint segment ({origin}, {destination}) is not an edge of the TIN"
  | .invalidParameter name value reason => s!"invalid parameter: {name} = {value} ({reason})"

/-- A parameter that should name a vertex of the mesh does not. -/
def Error.notAVertex (value : String) : Error :=
  .invalidParameter "vertex" value "not a vertex of the TIN"

/-- Why a traversal gave no summary. -/
inductive Failure where
  /-- It broke off. -/
  | fault (fault : Fault)
  /-- It was refused. -/
  | error (error : Error)
deriving DecidableEq, Repr

end TinFaces
