import TinFaces.Error
import TinFaces.Mesh.EdgePool
import TinFaces.Mesh.Hull

/-!
# Assembling faces

A mesh is assembled face by face. A directed side can bound one face only. The
first of two opposite sides to come up takes a pair from the pool, the other one
gets its dual. Once the triangles are attached, the hull is closed: beyond each
hull side `a → b` lies the ghost face `b, a, ghost`.
-/

namespace TinFaces

/-- A vertex of a face; `none` is the ghost vertex. -/
abbrev Corner := Option VertexId

/-- A directed side of a face. -/
abbrev Side := Corner × Corner

/-- What has been assembled of a mesh. -/
structure Assembly where
  pool : EdgePool
  /-- The directed sides that bound a face already, each with its edge, the
  latest first. -/
  sides : List (Side × EdgeId) := []
deriving DecidableEq, Repr

namespace Assembly

/-- The edge along a directed side that bounds a face. -/
def edge? (s : Assembly) (side : Side) : Option EdgeId := s.sides.lookup side

/-- Whether a directed side bounds a face. -/
def isTaken (s : Assembly) (side : Side) : Bool := (s.edge? side).isSome

/-- Gives a directed side its edge: the dual of its reverse if that has one, a
new pair otherwise. -/
def connectSide (s : Assembly) (side : Side) : EdgeId × Assembly :=
  match s.edge? side.swap with
  | some twin => (twin.dual, { s with sides := (side, twin.dual) :: s.sides })
  | none =>
      let (e, pool) := s.pool.allocate side.1 side.2
      (e, { pool, sides := (side, e) :: s.sides })

/-- Gives the three sides of a face their edges and links them. -/
def connect (s : Assembly) (face : Triangle Corner) : Assembly :=
  let (e₁, s) := s.connectSide (face.first, face.second)
  let (e₂, s) := s.connectSide (face.second, face.third)
  let (e₃, s) := s.connectSide (face.third, face.first)
  { s with pool := s.pool.linkFace ⟨e₁, e₂, e₃⟩ }

/-- A vertex by its index, as a corner. -/
def corner (v : Nat) : Corner := some ⟨v⟩

/-- The directed side between two vertices. -/
def sideBetween (side : HullSide) : Side := (corner side.1, corner side.2)

/-- Attaches a triangle, unless one of its sides bounds a face already. -/
def attach (s : Assembly) (t : Triangle Nat) : Except Error Assembly :=
  match t.sides.find? fun side => s.isTaken (sideBetween side) with
  | some (a, b) => .error (.nonManifoldEdge a b)
  | none => .ok (s.connect (t.map corner))

/-- The ghost face beyond a hull side. -/
def ghostFace (side : HullSide) : Triangle Corner := ⟨corner side.2, corner side.1, none⟩

/-- Attaches the ghost face beyond a hull side. A side that bounds a face
already runs between the ghost vertex and a vertex which the hull has passed
before. -/
def attachGhost (s : Assembly) (hullSide : HullSide) : Except Error Assembly :=
  match (ghostFace hullSide).sides.find? s.isTaken with
  | some (u, v) => .error (.nonManifoldBoundary (((u <|> v).map (·.index)).getD hullSide.1))
  | none => .ok (s.connect (ghostFace hullSide))

/-- The sides of the triangles whose reverse bounds no face, in the order of the
triangles. -/
def hull (s : Assembly) (triangles : List (Triangle Nat)) : List HullSide :=
  (triangles.flatMap Triangle.sides).filter fun side => !s.isTaken (sideBetween side.swap)

/-- Refuses an assembly with a side whose reverse bounds no face. -/
def checkTwins (s : Assembly) : Except Error Unit :=
  match s.sides.find? fun entry => !s.isTaken entry.1.swap with
  | some ((u, v), _) => .error (.nonManifoldBoundary (((u <|> v).map (·.index)).getD 0))
  | none => .ok ()

end Assembly

end TinFaces
