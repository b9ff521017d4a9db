import Mathlib.Logic.Relation
import TinFaces.Proofs.Acceptance

/-!
# Hulls are balanced

The three sides of a triangle leave each of its vertices once and enter each once. So do pairs of
opposite sides. Hence, if no directed side belongs to two triangles, the sides that are left over,
those of the hull, leave each vertex as often as they enter it (`hullSides_balanced`).

If the hull moreover leaves no vertex twice, it enters none twice and leads on from every vertex it
comes to. It is a permutation of its vertices. So every side of the faces has its reverse, and
following the hull comes back to where it began, past exactly the vertices that can be reached from
there (`Hull.exists_follow_onLoop`). Two checks of a build therefore never fail: the one for
reverse sides, whose answer would depend on the order in which the sides are enumerated, and the
one for dead ends of the hull.
-/

namespace TinFaces

open scoped List

/-! ## Counting ends -/

section Ends

variable {α : Type}

/-- Around a triangle each vertex is left once and entered once. -/
theorem Triangle.map_fst_sides_perm (t : Triangle α) :
    (t.sides.map Prod.fst).Perm (t.sides.map Prod.snd) :=
  (List.perm_append_singleton t.first [t.second, t.third]).symm

theorem map_fst_sidesOf_perm (triangles : List (Triangle α)) :
    ((sidesOf triangles).map Prod.fst).Perm ((sidesOf triangles).map Prod.snd) := by
  simp only [sidesOf, List.map_flatMap]
  exact List.Perm.flatMap_left _ fun t _ => t.map_fst_sides_perm

/-- Sides that come with their reverse leave each vertex as often as they enter it. -/
theorem map_fst_perm_of_swap_mem {sides : List (α × α)} (hnodup : sides.Nodup)
    (hswap : ∀ side ∈ sides, side.swap ∈ sides) :
    (sides.map Prod.fst).Perm (sides.map Prod.snd) := by
  have hreversed : (sides.map Prod.swap).Perm sides := by
    refine (List.perm_ext_iff_of_nodup (hnodup.map Prod.swap_injective) hnodup).2 fun side => ?_
    rw [List.mem_map]
    constructor
    · rintro ⟨s, hs, rfl⟩
      exact hswap s hs
    · exact fun hside => ⟨side.swap, hswap side hside, Prod.swap_swap side⟩
  calc sides.map Prod.fst
      = (sides.map Prod.swap).map Prod.snd := by rw [List.map_map]; rfl
    _ ~ sides.map Prod.snd := hreversed.map Prod.snd

end Ends

variable {triangles : List (Triangle Nat)}

/-- The hull leaves each vertex as often as it enters it, whatever the triangles are, if no directed
side comes up twice. -/
theorem hullSides_balanced (hnodup : (sidesOf triangles).Nodup) :
    ((hullSides triangles).map Prod.fst).Perm ((hullSides triangles).map Prod.snd) := by
  -- the sides that are not on the hull
  let inner := (sidesOf triangles).filter fun side => !decide (side.swap ∉ sidesOf triangles)
  have hinner : (inner.map Prod.fst).Perm (inner.map Prod.snd) := by
    refine map_fst_perm_of_swap_mem (hnodup.filter _) fun side hside => ?_
    simp only [inner, List.mem_filter, decide_not, Bool.not_not, decide_eq_true_eq] at hside ⊢
    rw [Prod.swap_swap]
    exact hside.symm
  have hsplit : (hullSides triangles ++ inner).Perm (sidesOf triangles) :=
    List.filter_append_perm _ _
  have hall : ((hullSides triangles).map Prod.fst ++ inner.map Prod.fst).Perm
      ((hullSides triangles).map Prod.snd ++ inner.map Prod.snd) := by
    calc (hullSides triangles).map Prod.fst ++ inner.map Prod.fst
        = (hullSides triangles ++ inner).map Prod.fst := List.map_append.symm
      _ ~ (sidesOf triangles).map Prod.fst := hsplit.map Prod.fst
      _ ~ (sidesOf triangles).map Prod.snd := map_fst_sidesOf_perm triangles
      _ ~ (hullSides triangles ++ inner).map Prod.snd := (hsplit.map Prod.snd).symm
      _ = (hullSides triangles).map Prod.snd ++ inner.map Prod.snd := List.map_append
  exact (List.perm_append_right_iff (inner.map Prod.fst)).1
    (hall.trans (List.Perm.append_left _ hinner.symm))

/-- Every side of the triangles and the ghost faces has its reverse. -/
theorem swap_mem_closedFaces_of_nodup (hnodup : (sidesOf triangles).Nodup) :
    ∀ side ∈ sidesOf (closedFaces triangles), side.swap ∈ sidesOf (closedFaces triangles) :=
  swap_mem_sidesOf_closedFaces_iff.2 fun _ => (hullSides_balanced hnodup).mem_iff

/-! ## The loop from the first side -/

namespace Hull

/-- The vertices that are passed on the way along the hull from its first side. -/
def OnLoop (hull : List HullSide) (v : Nat) : Prop :=
  ∃ first ∈ hull.head?, Relation.ReflTransGen (fun a b => (a, b) ∈ hull) first.1 v

variable {hull : List HullSide}

/-- A path reaches its vertices. -/
theorem Path.reaches {start v : Nat} {passed : List Nat} (h : Path hull start v passed) :
    ∀ w ∈ v :: passed, Relation.ReflTransGen (fun a b => (a, b) ∈ hull) start w := by
  have hsteps := h.steps
  have hbegins := h.begins
  clear h
  induction passed generalizing v with
  | nil =>
      obtain rfl : v = start := Option.some.inj hbegins
      intro w hw
      rw [List.mem_singleton.1 hw]
  | cons u passed ih =>
      obtain ⟨hstep, hrest⟩ := List.isChain_cons_cons.1 hsteps
      rw [List.getLast?_cons_cons] at hbegins
      have hearlier := ih hrest hbegins
      intro w hw
      rcases List.mem_cons.1 hw with rfl | hw
      · exact (hearlier u List.mem_cons_self).tail hstep
      · exact hearlier w hw

/-- If the hull leaves no vertex twice and leads on from every vertex it comes to, following it from
its first side does not get stuck, and passes the vertices that can be reached. -/
theorem exists_follow_onLoop (hleft : (hull.map Prod.fst).Nodup)
    (hleaves : ∀ side ∈ hull, side.2 ∈ hull.map Prod.fst) {first : HullSide}
    (hfirst : hull.head? = some first) :
    ∃ passed, follow first.1 [] hull = .ok passed ∧ ∀ v, v ∈ passed ↔ OnLoop hull v := by
  have hstart : first.1 ∈ hull.map Prod.fst := List.mem_map_of_mem (List.mem_of_head? hfirst)
  obtain ⟨passed, w, hfollow, hw, hpath⟩ := exists_follow_from hleaves hstart
  refine ⟨passed, hfollow, fun v => ⟨fun hv => ?_, ?_⟩⟩
  · exact ⟨first, hfirst, hpath.reaches v (List.mem_cons_of_mem _ hv)⟩
  · rintro ⟨other, hother, hreaches⟩
    cases hfirst.symm.trans hother
    induction hreaches with
    | refl =>
        rw [← hpath.getLast_eq (List.ne_nil_of_mem hw)]
        exact List.getLast_mem _
    | tail _ hstep ih =>
        -- the path leads on from where it is, and there is one way on
        obtain ⟨next, hnext, hmem⟩ := hpath.exists_step hw ih
        cases List.inj_on_of_nodup_map hleft hstep hnext rfl
        exact hmem

end Hull

end TinFaces
