/-!
# Triangles

A triangle is three things in counter-clockwise order: its vertices, the
directed edges around it, their indices. `Triangle α` is that shape for any
kind of thing.
-/

namespace TinFaces

/-- Three things around a triangle, in forward order. -/
structure Triangle (α : Type) where
  first : α
  second : α
  third : α
deriving DecidableEq, Repr

namespace Triangle

variable {α β : Type}

def toList (t : Triangle α) : List α := [t.first, t.second, t.third]

def map (f : α → β) (t : Triangle α) : Triangle β := ⟨f t.first, f t.second, f t.third⟩

/-- The three consecutive pairs, the closing one last. For vertices these are
the directed sides. -/
def sides (t : Triangle α) : List (α × α) :=
  [(t.first, t.second), (t.second, t.third), (t.third, t.first)]

/-- The same triangle read from its second thing on. -/
def rotate (t : Triangle α) : Triangle α := ⟨t.second, t.third, t.first⟩

/-- Applies a fallible function to each thing in forward order. -/
def mapM {m : Type → Type} [Monad m] (f : α → m β) (t : Triangle α) : m (Triangle β) := do
  let a ← f t.first
  let b ← f t.second
  let c ← f t.third
  pure ⟨a, b, c⟩

/-- The triangle of the values, if all three are there. -/
def allSome (t : Triangle (Option α)) : Option (Triangle α) := t.mapM id

@[simp] theorem toList_map (f : α → β) (t : Triangle α) : (t.map f).toList = t.toList.map f := rfl

@[simp] theorem sides_map (f : α → β) (t : Triangle α) :
    (t.map f).sides = t.sides.map (Prod.map f f) := rfl

theorem sides_rotate (t : Triangle α) : t.rotate.sides.Perm t.sides :=
  List.perm_append_singleton (t.first, t.second) [(t.second, t.third), (t.third, t.first)]

end Triangle

end TinFaces
