import TinFaces.Walk.Claim
import TinFaces.Walk.Report

/-!
# Scans

A scan claims every face of a mesh. The enumeration of a mesh yields one edge
per pair, and some faces are bounded by duals alone, so both sides of each edge
are tried. A ghost edge has ghost faces on both sides; they are claimed like any
other face and left out of what is reported.
-/

namespace TinFaces

namespace Triangulation

variable {V E : Type}

/-- Tries the face on the left of each edge in turn. -/
def scanSides (T : Triangulation V E) : List E → MarkSet → Trace V E
  | [], marks => .done marks
  | e :: rest, marks =>
      match T.isClaimed marks e with
      | .error fault => .broken marks fault
      | .ok true => (T.scanSides rest marks).after [.passed e]
      | .ok false =>
          match T.claim marks e with
          | .error fault => .broken marks fault
          | .ok (face, marks) => (T.scanSides rest marks).after [.claimed face]

/-- Tries both sides of each base edge in turn. -/
def scanEdges (T : Triangulation V E) : List E → MarkSet → Trace V E
  | [], marks => .done marks
  | e :: rest, marks =>
      match T.dual e with
      | .error fault => .broken marks fault
      | .ok d => (T.scanSides [e, d] marks).andThen (T.scanEdges rest)

/-- Every real triangle of the mesh, once. -/
def scan (T : Triangulation V E) (options : WalkOptions) : Report V E :=
  if T.isBootstrapped then
    match MarkSet.ofMaxIndex T.maxEdgeIndex options.markSlack with
    | .error fault => .broken fault
    | .ok marks =>
        .ofTrace (.scanStarted T.maxEdgeIndex marks.capacity) .scanFinished 0
          (T.scanEdges T.baseEdges marks)
  else .idle .noTriangles

end Triangulation

end TinFaces
