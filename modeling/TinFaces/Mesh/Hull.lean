import TinFaces.Error

/-!
# Hulls

The hull sides of a triangulation are those directed sides of its triangles
whose reverse belongs to no triangle. They have to form one loop that passes
each vertex once: surfaces with holes, and such that touch themselves in a
vertex, are refused.
-/

namespace TinFaces

/-- A directed side by the indices of its two vertices. -/
abbrev HullSide := Nat × Nat

namespace Hull

/-- Follows the sides from `v` on until a vertex comes up that was passed
before; gives the vertices that were passed, the last one first. The side that
leads on from a vertex is the first one that starts there. A table that kept the
last one instead would do the same: the hull is followed after its ghost faces
were attached, and two sides that start at one vertex do not both get one
(`Assembly.attachGhost`). -/
def follow (v : Nat) (passed : List Nat) (sides : List HullSide) : Except Error (List Nat) :=
  if v ∈ passed then .ok passed
  else
    match _h : sides.find? fun side => side.1 == v with
    | none => .error (.nonManifoldBoundary v)
    | some side => follow side.2 (v :: passed) (sides.erase side)
termination_by sides.length
decreasing_by
  have hmem := List.mem_of_find?_eq_some _h
  have hpos := List.length_pos_of_mem hmem
  rw [List.length_erase_of_mem hmem]
  omega

/-- Refuses hull sides that do not all lie on the loop from the first of them. -/
def checkLoop (hull : List HullSide) : Except Error Unit :=
  match hull with
  | [] => .ok ()
  | (start, _) :: _ => do
      let passed ← follow start [] hull
      match hull.find? fun side => side.1 ∉ passed with
      | some (v, _) => .error (.nonManifoldBoundary v)
      | none => .ok ()

end Hull

end TinFaces
