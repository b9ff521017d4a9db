import TinFaces.Walk.Claim
import TinFaces.Walk.Report

/-!
# Region walks

A region walk starts at the face on the left of a constraint's linking edge and
spreads from face to face, never across a side that is a region border. Nothing
else confines it. It keeps a stack of edges whose left faces are to be claimed;
after a claim it looks across the forward side, then across the reverse side, so
that the walk goes on beyond the reverse side first.

A side is only tested for being a border if the face beyond is still open. An
edge may be put on the stack from two faces, so the marks are looked at again
when it is taken off.

Before it begins, a walk sets aside its marks and then room for the stack. Either
may be more than there can be, and then nothing is reported.

The walk ends on any mesh at all: every claim uses up a clear flag and puts at
most two edges on the stack, and otherwise the stack only shrinks.
-/

namespace TinFaces

namespace Triangulation

variable {V E : Type}

/-- Looks across a side of a claimed face: what happened, and the edge beyond if
the walk may go there. -/
def lookAcross (T : Triangulation V E) (marks : MarkSet) (side : E) :
    Except Fault (List (Event V E) × Option E) := do
  let next ← T.dual side
  if ← T.isClaimed marks next then
    return ([], none)
  let border ← T.isRegionBorder side
  return ([.tested side border], if border then none else some next)

private theorem length_toList_le_one {α : Type} (way : Option α) : way.toList.length ≤ 1 := by
  cases way <;> simp

/-- Claims what can be reached from the edges on the stack, the first of which
is on top. -/
def explore (T : Triangulation V E) (marks : MarkSet) (stack : List E) : Trace V E :=
  match stack with
  | [] => .done marks
  | e :: rest =>
      match _hopen : T.isClaimed marks e with
      | .error fault => .broken marks fault
      | .ok true => (T.explore marks rest).after [.passed e]
      | .ok false =>
          match _hclaim : T.claim marks e with
          | .error fault => .broken marks fault
          | .ok (face, marks') =>
              match T.lookAcross marks' face.edges.second with
              | .error fault => (Trace.broken marks' fault).after [.claimed face]
              | .ok (events₁, way₁) =>
                  match T.lookAcross marks' face.edges.third with
                  | .error fault =>
                      (Trace.broken marks' fault).after (.claimed face :: events₁)
                  | .ok (events₂, way₂) =>
                      (T.explore marks' (way₂.toList ++ way₁.toList ++ rest)).after
                        (.claimed face :: (events₁ ++ events₂))
termination_by 3 * marks.free + stack.length
decreasing_by
  · simp
  · have hfree := free_lt_of_claim _hopen _hclaim
    have h₁ := length_toList_le_one way₁
    have h₂ := length_toList_le_one way₂
    simp only [List.length_append, List.length_cons]
    omega

/-- What a walk sets aside before it begins: its marks, all of them clear, and
room for its stack. -/
def prepareWalk (T : Triangulation V E) (options : WalkOptions) : Except Fault MarkSet := do
  let marks ← MarkSet.ofMaxIndex T.maxEdgeIndex options.markSlack
  checkRoom options.stackCapacity T.edgeBytes
  return marks

theorem ofMaxIndex_of_prepareWalk {T : Triangulation V E} {options : WalkOptions}
    {marks : MarkSet} (h : T.prepareWalk options = .ok marks) :
    MarkSet.ofMaxIndex T.maxEdgeIndex options.markSlack = .ok marks := by
  simp only [prepareWalk, bind_eq_ok_iff] at h
  obtain ⟨made, hmade, _, _, heq⟩ := h
  cases heq
  exact hmade

/-- The region that is reached from a linking edge. -/
def walkFrom (T : Triangulation V E) (link : E) (options : WalkOptions) : Report V E :=
  match T.prepareWalk options with
  | .error fault => .broken fault
  | .ok marks =>
      .ofTrace (.regionStarted link T.maxEdgeIndex marks.capacity) .regionFinished 1
        (T.explore marks [link])

end Triangulation

namespace Constraint

variable {V E : Type}

/-- The triangles of the region that a constraint bounds. -/
def walk (c : Constraint V E) (options : WalkOptions) : Report V E :=
  match c.mesh? with
  | none => .refused .unmanaged
  | some T =>
      if c.definesRegion then
        match c.linkingEdge? with
        | none => .refused .missingLinkingEdge
        | some link => if T.isBootstrapped then T.walkFrom link options else .idle .noRegion
      else .refused .notARegion

/-- Walks the regions of the constraints in turn, each with fresh marks, and
adds their summaries to the total. Constraints without a region are left out;
the first walk that fails is the last. -/
def walkEach (options : WalkOptions) (total : Summary) :
    List (Constraint V E) → Report V E
  | [] => ⟨[], [], .ok total⟩
  | c :: rest =>
      if c.definesRegion then
        let report := c.walk options
        match report.result with
        | .error _ => report
        | .ok summary =>
            match total.merge summary with
            | ⟨_, some fault⟩ => { report with result := .error (.fault fault) }
            | ⟨total, none⟩ => (walkEach options total rest).after report
      else walkEach options total rest

end Constraint

/-- The triangles of every constrained region of a mesh, region after region. A
triangle in two regions is reported twice. -/
def Triangulation.walkRegions {V E : Type} (T : Triangulation V E)
    (constraints : List (Constraint V E)) (options : WalkOptions) : Report V E :=
  if T.isBootstrapped then Constraint.walkEach options {} constraints
  else .idle .noRegions

end TinFaces
