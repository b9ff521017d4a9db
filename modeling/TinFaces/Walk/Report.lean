import TinFaces.Error
import TinFaces.Walk.Trace

/-!
# Reports

What a traversal hands back: everything it did up to its end, the log of it, and
either the summary or the reason why there is none. A traversal that fails
half-way still reports the triangles it had found.
-/

namespace TinFaces

variable {V E : Type}

/-- The result of a traversal over a mesh with vertices `V` and edges `E`. -/
structure Report (V E : Type) where
  events : List (Event V E)
  log : List (Record V E)
  result : Except Failure Summary

/-- Settings of a traversal. -/
structure WalkOptions where
  /-- How many flags are kept past the largest edge index. -/
  markSlack : Nat := 2
  /-- For how many edges a region walk sets room aside on its stack. The stack
  grows beyond it as needed, but what is set aside has to be addressable
  (`Triangulation.prepareWalk`). -/
  stackCapacity : Nat := 64
deriving DecidableEq, Repr

namespace Report

/-- The reported triangles as vertices, in order. -/
def triangles (report : Report V E) : List (Triangle V) := Event.triangles report.events

/-- The reported triangles as edges, in order. -/
def edgeTriangles (report : Report V E) : List (Triangle E) := Event.edgeTriangles report.events

/-- How often the mesh was asked for a border. -/
def borderTests (report : Report V E) : Nat := Event.borderTests report.events

/-- A traversal with nothing to do. -/
def idle (record : Record V E) : Report V E := ⟨[], [record], .ok {}⟩

/-- A traversal that was refused. -/
def refused (defect : ConstraintDefect) : Report V E :=
  ⟨[], [], .error (.error (.invalidArgument defect))⟩

/-- A traversal that could not begin. -/
def broken (fault : Fault) : Report V E := ⟨[], [], .error (.fault fault)⟩

/-- The report of a walk. The last record is only written if the walk came to
its end. -/
def ofTrace (started : Record V E) (finished : Summary → Record V E) (regionsWalked : Nat)
    (trace : Trace V E) : Report V E :=
  let summary := Event.summary trace.events regionsWalked
  let log := started :: Event.records trace.events
  match trace.fault? with
  | some fault => ⟨trace.events, log, .error (.fault fault)⟩
  | none => ⟨trace.events, log ++ [finished summary], .ok summary⟩

/-- The report with an earlier one before it. -/
def after (report earlier : Report V E) : Report V E where
  events := earlier.events ++ report.events
  log := earlier.log ++ report.log
  result := report.result

/-- All triangles as vertices, if the traversal did not fail. -/
def allTriangles (report : Report V E) : Except Failure (List (Triangle V)) :=
  (fun _ => report.triangles) <$> report.result

/-- All triangles as edges, if the traversal did not fail. -/
def allEdgeTriangles (report : Report V E) : Except Failure (List (Triangle E)) :=
  (fun _ => report.edgeTriangles) <$> report.result

end Report

end TinFaces
