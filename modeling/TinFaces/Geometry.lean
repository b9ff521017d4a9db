import TinFaces.Triangle

/-!
# Geometry of triangles

Coordinates are double-precision floats and every formula is evaluated in the
order in which it is written. Areas are those of the projection to the x/y
plane; a counter-clockwise triangle has a positive one.
-/

namespace TinFaces

/-- A point in space. -/
structure Point where
  x : Float
  y : Float
  z : Float
deriving DecidableEq, Repr

namespace Point

/-- Whether all coordinates compare equal as floats: a NaN differs from itself,
and the two zeros are the same. -/
def equals (p q : Point) : Bool := p.x == q.x && p.y == q.y && p.z == q.z

/-- The sum coordinate by coordinate. -/
def add (p q : Point) : Point := ⟨p.x + q.x, p.y + q.y, p.z + q.z⟩

/-- Divides each coordinate. -/
def divide (p : Point) (d : Float) : Point := ⟨p.x / d, p.y / d, p.z / d⟩

end Point

namespace Triangle

/-- Twice the signed area of the projection. -/
def doubledArea (t : Triangle Point) : Float :=
  (t.second.x - t.first.x) * (t.third.y - t.first.y) -
    (t.second.y - t.first.y) * (t.third.x - t.first.x)

/-- The signed area of the projection. -/
def area (t : Triangle Point) : Float := 0.5 * t.doubledArea

/-- The mean of the three points. -/
def centroid (t : Triangle Point) : Point := ((t.first.add t.second).add t.third).divide 3.0

end Triangle

end TinFaces
