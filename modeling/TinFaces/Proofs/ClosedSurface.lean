import Mathlib.Data.List.Flatten
import Mathlib.Data.List.Nodup
import Mathlib.Data.List.Pairwise
import Mathlib.Data.List.Perm.Basic
import Mathlib.Data.List.Rotate
import Mathlib.Data.Prod.Basic
import TinFaces.Mesh.Assembly

/-!
# Closed surfaces

The faces of a mesh are its triangles and the ghost faces beyond their hull
(`closedFaces`). They are a *closed surface* if no directed side bounds two
faces and the reverse of every side bounds one.

`closedSurface_closedFaces_iff` says what this asks of the triangles alone: no
directed side twice, and each vertex of the hull is passed by it once.
-/

namespace TinFaces

namespace Triangle

variable {α β : Type}

/-- No two of the three things are the same. -/
def Distinct (t : Triangle α) : Prop :=
  t.first ≠ t.second ∧ t.second ≠ t.third ∧ t.first ≠ t.third

instance [DecidableEq α] (t : Triangle α) : Decidable t.Distinct :=
  inferInstanceAs (Decidable (t.first ≠ t.second ∧ t.second ≠ t.third ∧ t.first ≠ t.third))

/-- Whether `t'` is the triangle `t` read from one of its things on. -/
def IsRotation (t t' : Triangle α) : Prop := t' = t ∨ t' = t.rotate ∨ t' = t.rotate.rotate

theorem isRotation_refl (t : Triangle α) : t.IsRotation t := .inl rfl

theorem IsRotation.symm {t t' : Triangle α} (h : t.IsRotation t') : t'.IsRotation t := by
  rcases h with rfl | rfl | rfl
  · exact .inl rfl
  · exact .inr (.inr rfl)
  · exact .inr (.inl rfl)

theorem IsRotation.rotate {t t' : Triangle α} (h : t.IsRotation t') : t.IsRotation t'.rotate := by
  rcases h with rfl | rfl | rfl
  · exact .inr (.inl rfl)
  · exact .inr (.inr rfl)
  · exact .inl rfl

theorem IsRotation.trans {t t' t'' : Triangle α} (h : t.IsRotation t') (h' : t'.IsRotation t'') :
    t.IsRotation t'' := by
  rcases h' with rfl | rfl | rfl
  · exact h
  · exact h.rotate
  · exact h.rotate.rotate

theorem IsRotation.map {t t' : Triangle α} (h : t.IsRotation t') (f : α → β) :
    (t.map f).IsRotation (t'.map f) := by
  rcases h with rfl | rfl | rfl
  · exact .inl rfl
  · exact .inr (.inl rfl)
  · exact .inr (.inr rfl)

/-- The sides of a triangle are the first sides of its rotations. -/
theorem mem_sides_iff {t : Triangle α} {side : α × α} :
    side ∈ t.sides ↔ ∃ t', t.IsRotation t' ∧ side = (t'.first, t'.second) := by
  constructor
  · intro h
    simp only [sides, List.mem_cons, List.not_mem_nil, or_false] at h
    rcases h with rfl | rfl | rfl
    · exact ⟨t, .inl rfl, rfl⟩
    · exact ⟨t.rotate, .inr (.inl rfl), rfl⟩
    · exact ⟨t.rotate.rotate, .inr (.inr rfl), rfl⟩
  · rintro ⟨t', rfl | rfl | rfl, rfl⟩ <;> simp [sides, Triangle.rotate]

theorem IsRotation.mem_sides {t t' : Triangle α} (h : t.IsRotation t') :
    (t'.first, t'.second) ∈ t.sides :=
  mem_sides_iff.2 ⟨t', h, rfl⟩

theorem IsRotation.distinct {t t' : Triangle α} (h : t.IsRotation t') (ht : t.Distinct) :
    t'.Distinct := by
  obtain ⟨h₁₂, h₂₃, h₁₃⟩ := ht
  rcases h with rfl | rfl | rfl
  · exact ⟨h₁₂, h₂₃, h₁₃⟩
  · exact ⟨h₂₃, h₁₃.symm, h₁₂.symm⟩
  · exact ⟨h₁₃.symm, h₁₂, h₂₃.symm⟩

theorem Distinct.map {t : Triangle α} {f : α → β} (hf : Function.Injective f)
    (h : t.Distinct) : (t.map f).Distinct :=
  ⟨hf.ne h.1, hf.ne h.2.1, hf.ne h.2.2⟩

theorem Distinct.ne_of_mem_sides {t : Triangle α} (h : t.Distinct) {side : α × α}
    (hside : side ∈ t.sides) : side.1 ≠ side.2 := by
  obtain ⟨t', hrotation, rfl⟩ := mem_sides_iff.1 hside
  exact (hrotation.distinct h).1

theorem Distinct.nodup_sides {t : Triangle α} (h : t.Distinct) : t.sides.Nodup := by
  obtain ⟨h₁₂, h₂₃, h₁₃⟩ := h
  simp [sides, h₁₂, h₂₃, h₁₃, h₁₃.symm]

end Triangle

/-! ## Sides of many triangles -/

/-- The directed sides of the triangles, in order. -/
def sidesOf {α : Type} (triangles : List (Triangle α)) : List (α × α) :=
  triangles.flatMap Triangle.sides

theorem mem_sidesOf {α : Type} {triangles : List (Triangle α)} {side : α × α} :
    side ∈ sidesOf triangles ↔ ∃ t ∈ triangles, side ∈ t.sides :=
  List.mem_flatMap

theorem sidesOf_append {α : Type} (ts ts' : List (Triangle α)) :
    sidesOf (ts ++ ts') = sidesOf ts ++ sidesOf ts' :=
  List.flatMap_append

theorem length_sidesOf {α : Type} (triangles : List (Triangle α)) :
    (sidesOf triangles).length = 3 * triangles.length := by
  induction triangles with
  | nil => rfl
  | cons t ts ih =>
      have hcons : sidesOf (t :: ts) = t.sides ++ sidesOf ts := rfl
      have hthree : t.sides.length = 3 := rfl
      rw [hcons, List.length_append, ih, hthree, List.length_cons]
      omega

/-- Where no side occurs twice, a side tells its triangle. -/
theorem eq_of_mem_sides {α : Type} {triangles : List (Triangle α)}
    (h : (sidesOf triangles).Nodup) {t t' : Triangle α} (ht : t ∈ triangles)
    (ht' : t' ∈ triangles) {side : α × α} (hside : side ∈ t.sides) (hside' : side ∈ t'.sides) :
    t = t' := by
  by_contra hne
  have hdisjoint := (List.nodup_flatMap.1 h).2
  have hsymm : Std.Symm (fun t t' : Triangle α => List.Disjoint t.sides t'.sides) :=
    ⟨fun _ _ hd => List.disjoint_symm hd⟩
  exact hdisjoint.forall ht ht' hne hside hside'

/-- The sides whose reverse belongs to no triangle. -/
def hullSides (triangles : List (Triangle Nat)) : List HullSide :=
  (sidesOf triangles).filter fun side => side.swap ∉ sidesOf triangles

theorem mem_hullSides {triangles : List (Triangle Nat)} {side : HullSide} :
    side ∈ hullSides triangles ↔ side ∈ sidesOf triangles ∧ side.swap ∉ sidesOf triangles := by
  simp [hullSides]

/-- Sides that form a single loop which passes no vertex twice, or no sides. -/
def IsLoop (sides : List HullSide) : Prop :=
  ∃ loop : List Nat, loop.Nodup ∧ sides.Perm (loop.zip (loop.rotate 1))

/-! ## Corners -/

namespace Assembly

theorem corner_injective : Function.Injective corner := by
  intro a b h
  simpa [corner] using h

theorem sideBetween_injective : Function.Injective sideBetween := by
  rintro ⟨a, b⟩ ⟨c, d⟩ h
  simp only [sideBetween, Prod.mk.injEq] at h
  rw [corner_injective h.1, corner_injective h.2]

theorem sides_map_corner (t : Triangle Nat) : (t.map corner).sides = t.sides.map sideBetween := rfl

theorem distinct_ghostFace {side : HullSide} (h : side.1 ≠ side.2) :
    (ghostFace side).Distinct :=
  ⟨corner_injective.ne h.symm, Option.some_ne_none _, Option.some_ne_none _⟩

theorem sidesOf_map_corner (triangles : List (Triangle Nat)) :
    sidesOf (triangles.map (Triangle.map corner)) = (sidesOf triangles).map sideBetween := by
  simp only [sidesOf, List.flatMap_map, List.map_flatMap, sides_map_corner]

end Assembly

/-! ## The closed surface -/

open Assembly (corner sideBetween ghostFace)
open scoped List

/-- The triangles and the ghost faces beyond their hull. -/
def closedFaces (triangles : List (Triangle Nat)) : List (Triangle Corner) :=
  triangles.map (Triangle.map corner) ++ (hullSides triangles).map ghostFace

theorem length_closedFaces (triangles : List (Triangle Nat)) :
    (closedFaces triangles).length = triangles.length + (hullSides triangles).length := by
  rw [closedFaces, List.length_append, List.length_map, List.length_map]

/-- Faces whose corners differ, without a repeated side, and with the reverse of
each side. -/
structure ClosedSurface (faces : List (Triangle Corner)) : Prop where
  distinct : ∀ face ∈ faces, face.Distinct
  nodup : (sidesOf faces).Nodup
  swap_mem : ∀ side ∈ sidesOf faces, side.swap ∈ sidesOf faces

variable {triangles : List (Triangle Nat)}

/-- The sides of the faces: those of the triangles, the hull in reverse, and the
sides to and from the ghost vertex. -/
theorem sidesOf_closedFaces_perm (triangles : List (Triangle Nat)) :
    (sidesOf (closedFaces triangles)).Perm
      ((sidesOf triangles ++ (hullSides triangles).map Prod.swap).map sideBetween ++
        (((hullSides triangles).map Prod.fst).map (fun v => (corner v, none)) ++
          ((hullSides triangles).map Prod.snd).map fun v => (none, corner v))) := by
  have hghosts : (sidesOf ((hullSides triangles).map ghostFace)).Perm
      (((hullSides triangles).map Prod.swap).map sideBetween ++
        (((hullSides triangles).map Prod.fst).map (fun v => (corner v, none)) ++
          ((hullSides triangles).map Prod.snd).map fun v => (none, corner v))) := by
    simp only [sidesOf, List.flatMap_map, List.map_map]
    calc (hullSides triangles).flatMap (fun s => (ghostFace s).sides)
        = (hullSides triangles).flatMap fun s =>
            sideBetween s.swap :: [(corner s.1, none), (none, corner s.2)] := rfl
      _ ~ (hullSides triangles).map (sideBetween ∘ Prod.swap) ++
            (hullSides triangles).flatMap fun s =>
              (corner s.1, none) :: [(none, corner s.2)] :=
          (List.map_append_flatMap_perm _ _ _).symm
      _ ~ (hullSides triangles).map (sideBetween ∘ Prod.swap) ++
            ((hullSides triangles).map ((fun v => (corner v, none)) ∘ Prod.fst) ++
              (hullSides triangles).flatMap fun s => [(none, corner s.2)]) :=
          List.Perm.append_left _ (List.map_append_flatMap_perm _ _ _).symm
      _ = _ := by
          rw [← List.map_eq_flatMap]
          rfl
  rw [closedFaces, sidesOf_append, Assembly.sidesOf_map_corner, List.map_append,
    List.append_assoc]
  exact List.Perm.append_left _ hghosts

theorem mem_sidesOf_closedFaces {side : Side} :
    side ∈ sidesOf (closedFaces triangles) ↔
      (∃ s ∈ sidesOf triangles, sideBetween s = side) ∨
      (∃ s ∈ hullSides triangles, sideBetween s.swap = side) ∨
      (∃ v ∈ (hullSides triangles).map Prod.fst, (corner v, none) = side) ∨
      ∃ v ∈ (hullSides triangles).map Prod.snd, (none, corner v) = side := by
  rw [(sidesOf_closedFaces_perm triangles).mem_iff]
  simp only [List.mem_append, List.mem_map]
  constructor
  · intro hcase
    rcases hcase with ⟨_, hs | ⟨s, hs, rfl⟩, rfl⟩ | h | h
    · exact .inl ⟨_, hs, rfl⟩
    · exact .inr (.inl ⟨s, hs, rfl⟩)
    · exact .inr (.inr (.inl h))
    · exact .inr (.inr (.inr h))
  · intro hcase
    rcases hcase with ⟨s, hs, rfl⟩ | ⟨s, hs, rfl⟩ | h | h
    · exact .inl ⟨s, .inl hs, rfl⟩
    · exact .inl ⟨s.swap, .inr ⟨s, hs, rfl⟩, rfl⟩
    · exact .inr (.inl h)
    · exact .inr (.inr h)

/-- A side from a vertex to the ghost vertex starts where a hull side starts. -/
theorem to_ghost_mem_iff {v : Nat} :
    (corner v, none) ∈ sidesOf (closedFaces triangles) ↔
      v ∈ (hullSides triangles).map Prod.fst := by
  rw [mem_sidesOf_closedFaces]
  constructor
  · intro hcase
    rcases hcase with ⟨s, _, hs⟩ | ⟨s, _, hs⟩ | ⟨w, hw, hs⟩ | ⟨w, _, hs⟩
    · exact absurd (congrArg Prod.snd hs) (Option.some_ne_none _)
    · exact absurd (congrArg Prod.snd hs) (Option.some_ne_none _)
    · rwa [← Assembly.corner_injective (congrArg Prod.fst hs)]
    · exact absurd (congrArg Prod.snd hs) (Option.some_ne_none _)
  · intro hv
    exact .inr (.inr (.inl ⟨v, hv, rfl⟩))

/-- A side from the ghost vertex to a vertex ends where a hull side ends. -/
theorem from_ghost_mem_iff {v : Nat} :
    (none, corner v) ∈ sidesOf (closedFaces triangles) ↔
      v ∈ (hullSides triangles).map Prod.snd := by
  rw [mem_sidesOf_closedFaces]
  constructor
  · intro hcase
    rcases hcase with ⟨s, _, hs⟩ | ⟨s, _, hs⟩ | ⟨w, _, hs⟩ | ⟨w, hw, hs⟩
    · exact absurd (congrArg Prod.fst hs) (Option.some_ne_none _)
    · exact absurd (congrArg Prod.fst hs) (Option.some_ne_none _)
    · exact absurd (congrArg Prod.fst hs) (Option.some_ne_none _)
    · rwa [← Assembly.corner_injective (congrArg Prod.snd hs)]
  · intro hv
    exact .inr (.inr (.inr ⟨v, hv, rfl⟩))

/-- No side bounds two faces if none bounds two triangles and no vertex is
passed twice by the hull. -/
theorem nodup_sidesOf_closedFaces_iff :
    (sidesOf (closedFaces triangles)).Nodup ↔ (sidesOf triangles).Nodup ∧
      ((hullSides triangles).map Prod.fst).Nodup ∧
      ((hullSides triangles).map Prod.snd).Nodup := by
  have hto : Function.Injective fun v : Nat => ((corner v, none) : Side) := fun _ _ h =>
    Assembly.corner_injective (congrArg Prod.fst h)
  have hfrom : Function.Injective fun v : Nat => ((none, corner v) : Side) := fun _ _ h =>
    Assembly.corner_injective (congrArg Prod.snd h)
  have hreal : (sidesOf triangles ++ (hullSides triangles).map Prod.swap).Nodup ↔
      (sidesOf triangles).Nodup := by
    rw [List.nodup_append', List.nodup_map_iff Prod.swap_injective]
    constructor
    · exact fun h => h.1
    · intro h
      refine ⟨h, h.filter _, ?_⟩
      intro side hside hhull
      obtain ⟨s, hs, rfl⟩ := List.mem_map.1 hhull
      exact (mem_hullSides.1 hs).2 hside
  rw [(sidesOf_closedFaces_perm triangles).nodup_iff, List.nodup_append', List.nodup_append',
    List.nodup_map_iff Assembly.sideBetween_injective, hreal, List.nodup_map_iff hto,
    List.nodup_map_iff hfrom]
  constructor
  · exact fun h => ⟨h.1, h.2.1.1, h.2.1.2.1⟩
  · intro hparts
    obtain ⟨htriangles, hfst, hsnd⟩ := hparts
    refine ⟨htriangles, ⟨hfst, hsnd, ?_⟩, ?_⟩
    · intro side hleft hright
      obtain ⟨v, _, rfl⟩ := List.mem_map.1 hleft
      obtain ⟨w, _, hw⟩ := List.mem_map.1 hright
      exact absurd (congrArg Prod.fst hw).symm (Option.some_ne_none _)
    · intro side hleft hright
      obtain ⟨s, _, rfl⟩ := List.mem_map.1 hleft
      rcases List.mem_append.1 hright with hright | hright
      · obtain ⟨w, _, hw⟩ := List.mem_map.1 hright
        exact absurd (congrArg Prod.snd hw).symm (Option.some_ne_none _)
      · obtain ⟨w, _, hw⟩ := List.mem_map.1 hright
        exact absurd (congrArg Prod.fst hw).symm (Option.some_ne_none _)

/-- Every side has its reverse if the hull leaves each vertex it comes to, and
comes to each vertex it leaves. -/
theorem swap_mem_sidesOf_closedFaces_iff :
    (∀ side ∈ sidesOf (closedFaces triangles), side.swap ∈ sidesOf (closedFaces triangles)) ↔
      ∀ v, v ∈ (hullSides triangles).map Prod.fst ↔ v ∈ (hullSides triangles).map Prod.snd := by
  constructor
  · intro h v
    exact ⟨fun hv => from_ghost_mem_iff.1 (h _ (to_ghost_mem_iff.2 hv)),
      fun hv => to_ghost_mem_iff.1 (h _ (from_ghost_mem_iff.2 hv))⟩
  · intro h side hside
    rcases mem_sidesOf_closedFaces.1 hside with
      ⟨s, hs, rfl⟩ | ⟨s, hs, rfl⟩ | ⟨v, hv, rfl⟩ | ⟨v, hv, rfl⟩
    · -- the reverse of a triangle's side is another's, unless the side is on the hull
      rw [mem_sidesOf_closedFaces]
      by_cases hswap : s.swap ∈ sidesOf triangles
      · exact .inl ⟨s.swap, hswap, rfl⟩
      · exact .inr (.inl ⟨s, mem_hullSides.2 ⟨hs, hswap⟩, rfl⟩)
    · exact mem_sidesOf_closedFaces.2 (.inl ⟨s, (mem_hullSides.1 hs).1, rfl⟩)
    · exact from_ghost_mem_iff.2 ((h v).1 hv)
    · exact to_ghost_mem_iff.2 ((h v).2 hv)

/-- The corners of every face differ if the vertices of every triangle do. -/
theorem distinct_of_mem_closedFaces (h : ∀ t ∈ triangles, t.Distinct) :
    ∀ face ∈ closedFaces triangles, face.Distinct := by
  intro face hface
  rcases List.mem_append.1 hface with hface | hface
  · obtain ⟨t, ht, rfl⟩ := List.mem_map.1 hface
    exact (h t ht).map Assembly.corner_injective
  · obtain ⟨s, hs, rfl⟩ := List.mem_map.1 hface
    obtain ⟨t, ht, hside⟩ := mem_sidesOf.1 (mem_hullSides.1 hs).1
    exact Assembly.distinct_ghostFace ((h t ht).ne_of_mem_sides hside)

/-- When triangles and the ghost faces beyond their hull are a closed surface. -/
theorem closedSurface_closedFaces_iff (h : ∀ t ∈ triangles, t.Distinct) :
    ClosedSurface (closedFaces triangles) ↔
      ((sidesOf triangles).Nodup ∧ ((hullSides triangles).map Prod.fst).Nodup ∧
        ((hullSides triangles).map Prod.snd).Nodup) ∧
      ∀ v, v ∈ (hullSides triangles).map Prod.fst ↔
        v ∈ (hullSides triangles).map Prod.snd := by
  rw [← nodup_sidesOf_closedFaces_iff, ← swap_mem_sidesOf_closedFaces_iff]
  constructor
  · exact fun hclosed => ⟨hclosed.nodup, hclosed.swap_mem⟩
  · exact fun hclosed => ⟨distinct_of_mem_closedFaces h, hclosed.1, hclosed.2⟩

end TinFaces
