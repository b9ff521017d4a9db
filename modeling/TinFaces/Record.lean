import TinFaces.Index
import TinFaces.Summary
import TinFaces.Triangle

/-!
# Log records

What the operations report about their own progress. A record is data; its
level and its text are functions of it, so a reader of the log sees the ids as
the mesh spells them.
-/

namespace TinFaces

/-- One entry of the log of a mesh with vertices `V` and edges `E`. -/
inductive Record (V E : Type) where
  | built (vertices triangles hullEdges edges maxIndex : Nat)
  | constraintAdded (id : ConstraintId) (segments : Nat) (definesRegion : Bool)
  /-- A scan of a mesh without triangles. -/
  | noTriangles
  | scanStarted (maxIndex flags : Nat)
  | scanFinished (summary : Summary)
  /-- A tour of the regions of a mesh without triangles. -/
  | noRegions
  /-- A region walk in a mesh without triangles. -/
  | noRegion
  | regionStarted (link : E) (maxIndex flags : Nat)
  | regionFinished (summary : Summary)
  /-- A triangle was reported. -/
  | emitted (vertices : Triangle V)
deriving DecidableEq, Repr

namespace Record

variable {V E : Type} [ToString V] [ToString E]

/-- How much detail a record is. -/
def level : Record V E → String
  | emitted _ => "TRACE"
  | _ => "DEBUG"

/-- The text of a record. -/
def text : Record V E → String
  | built vertices triangles hullEdges edges maxIndex =>
      s!"built TIN: {vertices} vertices, {triangles} triangles, {hullEdges} hull edges, " ++
        s!"{edges} edges (max index {maxIndex})"
  | constraintAdded id segments definesRegion =>
      s!"added constraint {id}: {segments} segments, region={definesRegion}"
  | noTriangles => "TIN is not bootstrapped; no triangles to visit"
  | scanStarted maxIndex flags =>
      s!"scanning TIN: max edge index {maxIndex}, {flags} mark flags"
  | scanFinished summary => s!"scan finished: {summary}"
  | noRegions => "TIN is not bootstrapped; no constrained regions to visit"
  | noRegion => "TIN is not bootstrapped; no region to walk"
  | regionStarted link maxIndex flags =>
      s!"walking region from {link}: max edge index {maxIndex}, {flags} mark flags"
  | regionFinished summary => s!"region walk finished: {summary}"
  | emitted vertices => s!"emit {vertices.first} {vertices.second} {vertices.third}"

/-- A record as one line of the log. -/
def line (record : Record V E) : String := record.level ++ " " ++ record.text

end Record

end TinFaces
