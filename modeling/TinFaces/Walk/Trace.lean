import TinFaces.MarkSet
import TinFaces.Summary
import TinFaces.Record

/-!
# Traces

A walk over a mesh is described by the list of what it did, in order: which
faces it claimed, which edges it found claimed already, which borders it tested.
Everything a caller sees is read off that list: the triangles that are reported,
the counters, the log. What happened before a fault stays in the list.
-/

namespace TinFaces

variable {V E : Type}

/-- A face as a walk found it: its three edges in forward order, and where each
of them starts. -/
structure Face (V E : Type) where
  edges : Triangle E
  origins : Triangle (Option V)
deriving DecidableEq, Repr

namespace Face

/-- The vertices of the face, unless it touches the ghost vertex. -/
def vertices? (face : Face V E) : Option (Triangle V) := face.origins.allSome

/-- Whether the face touches the ghost vertex. -/
def isGhost (face : Face V E) : Bool := face.vertices?.isNone

end Face

/-- One thing that happened during a walk. -/
inductive Event (V E : Type) where
  /-- The face on the left of its first edge was claimed. -/
  | claimed (face : Face V E)
  /-- The face on the left of the edge had been claimed before. -/
  | passed (edge : E)
  /-- The walk asked whether the side is a region border. -/
  | tested (side : E) (border : Bool)
deriving DecidableEq, Repr

namespace Event

/-- The face that was claimed, if one was. -/
def face? : Event V E → Option (Face V E)
  | claimed face => some face
  | _ => none

/-- The outcome of a border test, if it was one. -/
def border? : Event V E → Option Bool
  | tested _ border => some border
  | _ => none

/-- The claimed faces, in order. -/
def faces (events : List (Event V E)) : List (Face V E) := events.filterMap face?

/-- The claimed faces that touch no ghost, in order. -/
def realFaces (events : List (Event V E)) : List (Face V E) :=
  (faces events).filter fun face => !face.isGhost

/-- The reported triangles as vertices. -/
def triangles (events : List (Event V E)) : List (Triangle V) :=
  (faces events).filterMap Face.vertices?

/-- The reported triangles as edges. -/
def edgeTriangles (events : List (Event V E)) : List (Triangle E) :=
  (realFaces events).map Face.edges

/-- How often a border was asked for. -/
def borderTests (events : List (Event V E)) : Nat := (events.filterMap border?).length

/-- What the events count up to. -/
def summary (events : List (Event V E)) (regionsWalked : Nat) : Summary where
  facesVisited := (faces events).length
  trianglesEmitted := (realFaces events).length
  ghostsSuppressed := ((faces events).filter Face.isGhost).length
  borderCrossingsRefused := (events.filterMap border?).count true
  regionsWalked

/-- The log records of the reported triangles. -/
def records (events : List (Event V E)) : List (Record V E) :=
  (triangles events).map .emitted

/-! Reading a list of events off in two parts -/

theorem faces_append (xs ys : List (Event V E)) : faces (xs ++ ys) = faces xs ++ faces ys :=
  List.filterMap_append

theorem triangles_append (xs ys : List (Event V E)) :
    triangles (xs ++ ys) = triangles xs ++ triangles ys := by
  simp [triangles, faces_append]

theorem realFaces_append (xs ys : List (Event V E)) :
    realFaces (xs ++ ys) = realFaces xs ++ realFaces ys := by
  simp [realFaces, faces_append]

theorem edgeTriangles_append (xs ys : List (Event V E)) :
    edgeTriangles (xs ++ ys) = edgeTriangles xs ++ edgeTriangles ys := by
  simp [edgeTriangles, realFaces_append]

end Event

/-- What a walk did, the marks it ended with, and the fault that broke it off,
if any did. -/
structure Trace (V E : Type) where
  events : List (Event V E)
  marks : MarkSet
  fault? : Option Fault

namespace Trace

/-- A walk that has nothing left to do. -/
def done (marks : MarkSet) : Trace V E := ⟨[], marks, none⟩

/-- A walk that breaks off. -/
def broken (marks : MarkSet) (fault : Fault) : Trace V E := ⟨[], marks, some fault⟩

/-- The trace with earlier events before its own. -/
def after (trace : Trace V E) (events : List (Event V E)) : Trace V E :=
  { trace with events := events ++ trace.events }

/-- Goes on from the marks of a walk, unless it broke off. -/
def andThen (trace : Trace V E) (next : MarkSet → Trace V E) : Trace V E :=
  match trace.fault? with
  | some _ => trace
  | none => (next trace.marks).after trace.events

@[simp] theorem events_after (trace : Trace V E) (events : List (Event V E)) :
    (trace.after events).events = events ++ trace.events := rfl

@[simp] theorem marks_after (trace : Trace V E) (events : List (Event V E)) :
    (trace.after events).marks = trace.marks := rfl

@[simp] theorem fault?_after (trace : Trace V E) (events : List (Event V E)) :
    (trace.after events).fault? = trace.fault? := rfl

end Trace

end TinFaces
