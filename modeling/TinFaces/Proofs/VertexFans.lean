import Mathlib.Data.Set.Card
import Mathlib.Logic.Relation
import TinFaces.Proofs.Adjacency
import TinFaces.Proofs.Rings

/-!
# Fans round a vertex

A build asks nothing about the faces round a vertex. It looks at the directed sides, each on
its own, and follows the hull; both can be in order while the triangles at a vertex come
apart into several fans (`Mesh.touching_not_fansAround`). This file says what is true
of the vertices of all meshes that are built.

* The edges in use that leave a vertex form cycles of turns: the turn is one to one, and there
  are finitely many edges (`Mesh.Realizes.turned_symm`).
* A turn leads from a triangle to the next one at the vertex, or out to the ghost faces, which
  lead back in along the one hull side that leaves the vertex. So the triangles along a cycle
  are those that are joined round the vertex, each sharing a side at the vertex with the next
  (`Mesh.Realizes.turned_iff`).

There is a single cycle if and only if all triangles at the vertex are joined
(`Mesh.fansAt_of_build`).
-/

namespace TinFaces

open Assembly (corner ghostFace)

/-! ## Triangles that meet at a vertex -/

/-- Whether two triangles run along a common side at `v`, in opposite directions. -/
def MeetAt (v : Nat) (x y : Triangle Nat) : Prop :=
  ∃ w, ((v, w) ∈ x.sides ∧ (w, v) ∈ y.sides) ∨ ((w, v) ∈ x.sides ∧ (v, w) ∈ y.sides)

/-- Whether some triangles of the list lead round `v` from one to another, each of them meeting
the next at `v`. -/
def JoinedAt (triangles : List (Triangle Nat)) (v : Nat) : Triangle Nat → Triangle Nat → Prop :=
  Relation.ReflTransGen fun x y => x ∈ triangles ∧ y ∈ triangles ∧ MeetAt v x y

theorem JoinedAt.symm {triangles : List (Triangle Nat)} {v : Nat} {x y : Triangle Nat}
    (h : JoinedAt triangles v x y) : JoinedAt triangles v y x := by
  induction h with
  | refl => exact .refl
  | tail _ hstep ih =>
      obtain ⟨hx, hy, w, hmeet⟩ := hstep
      exact ih.head ⟨hy, hx, w, hmeet.symm.imp And.symm And.symm⟩

namespace Triangle

variable {α : Type} {t : Triangle α} {a b b' c c' : α}

/-- A triangle can be read from each of its vertices on. -/
theorem exists_isRotation_of_mem (h : a ∈ t.toList) : ∃ b c, t.IsRotation ⟨a, b, c⟩ := by
  simp only [toList, List.mem_cons, List.not_mem_nil, or_false] at h
  rcases h with rfl | rfl | rfl
  · exact ⟨_, _, .inl rfl⟩
  · exact ⟨_, _, .inr (.inl rfl)⟩
  · exact ⟨_, _, .inr (.inr rfl)⟩

/-- In one way only. -/
theorem Distinct.isRotation_unique (ht : t.Distinct) (h : t.IsRotation ⟨a, b, c⟩)
    (h' : t.IsRotation ⟨a, b', c'⟩) : b = b' ∧ c = c' := by
  obtain ⟨x, y, z⟩ := t
  obtain ⟨hxy, hyz, hxz⟩ := ht
  simp only [IsRotation, Triangle.rotate, Triangle.mk.injEq] at h h' hxy hyz hxz
  grind

end Triangle

/-! ## Ghost faces at a vertex -/

section Hull

variable {triangles : List (Triangle Nat)} {v w : Nat}

/-- The ghost face beyond a hull side, read from the end of the side and from its start. -/
theorem isReading_of_hull (h : (v, w) ∈ hullSides triangles) :
    IsReading (closedFaces triangles) ⟨corner w, corner v, none⟩ ∧
      IsReading (closedFaces triangles) ⟨corner v, none, corner w⟩ := by
  have hface : ghostFace (v, w) ∈ closedFaces triangles :=
    List.mem_append_right _ (List.mem_map_of_mem h)
  exact ⟨⟨_, hface, .inl rfl⟩, ⟨_, hface, .inr (.inl rfl)⟩⟩

/-- A face that is read from a vertex to the ghost vertex lies beyond the hull side that
leaves the vertex. -/
theorem hull_of_isReading {c : Corner}
    (h : IsReading (closedFaces triangles) ⟨corner v, none, c⟩) :
    ∃ w, (v, w) ∈ hullSides triangles ∧ c = corner w := by
  obtain ⟨face, hface, hrotation⟩ := h
  rcases List.mem_append.1 hface with hface | hface
  · obtain ⟨t, _, rfl⟩ := List.mem_map.1 hface
    have hghost : (none : Corner) ∈ (t.map corner).toList := by
      rcases hrotation with heq | heq | heq
      all_goals
        have hsecond := congrArg Triangle.second heq
        simp only [Triangle.rotate] at hsecond
        rw [hsecond]
        simp [Triangle.toList]
    simp [Triangle.toList, Triangle.map, corner] at hghost
  · obtain ⟨⟨a, b⟩, hside, rfl⟩ := List.mem_map.1 hface
    rcases hrotation with heq | heq | heq
    all_goals simp only [ghostFace, Triangle.rotate, Triangle.mk.injEq] at heq
    · exact absurd heq.2.1.symm (Option.some_ne_none _)
    · obtain ⟨hv, _, hc⟩ := heq
      rw [Assembly.corner_injective hv]
      exact ⟨b, hside, hc⟩
    · exact absurd heq.1 (Option.some_ne_none _)

end Hull

namespace Mesh

variable {m : Mesh} {triangles : List (Triangle Nat)} {a b c e : EdgeId}

/-! ## Turns as cycles -/

theorem Turned.trans (hab : m.Turned a b) (hbc : m.Turned b c) : m.Turned a c := by
  induction hbc with
  | start => exact hab
  | turn _ hreverse ih => exact ih.turn hreverse

/-- Where a turn leads. -/
def Realizes.turnOf (h : m.Realizes triangles) (e : EdgeId) : EdgeId :=
  (h.lawful.forward (h.lawful.forward e)).dual

theorem Realizes.turned_turnOf (h : m.Realizes triangles) (he : m.pool.isLive e.slot = true)
    (hae : m.Turned a e) : m.Turned a (h.turnOf e) :=
  hae.turn (h.lawful.reverse_eq e he)

theorem Realizes.isLive_turnOf (h : m.Realizes triangles) (he : m.pool.isLive e.slot = true) :
    m.pool.isLive (h.turnOf e).slot = true :=
  h.lawful.dual_mem _ (h.lawful.forward_mem _ (h.lawful.forward_mem e he))

/-- A step of turning goes where the turn leads. -/
theorem Realizes.eq_turnOf (h : m.Realizes triangles) {r : EdgeId}
    (he : m.pool.isLive e.slot = true) (hreverse : m.reverse e = .ok r) : r.dual = h.turnOf e := by
  have hanswer : m.reverse e = .ok (h.lawful.forward (h.lawful.forward e)) :=
    h.lawful.reverse_eq e he
  rw [Except.ok.inj (hreverse.symm.trans hanswer)]
  rfl

theorem Realizes.turnOf_injOn (h : m.Realizes triangles) :
    Set.InjOn h.turnOf {e : EdgeId | m.pool.isLive e.slot = true} := by
  intro x hx y hy heq
  have hforward : h.lawful.forward (h.lawful.forward x) =
      h.lawful.forward (h.lawful.forward y) := by
    rw [← EdgeId.dual_dual (h.lawful.forward (h.lawful.forward x)),
      ← EdgeId.dual_dual (h.lawful.forward (h.lawful.forward y))]
    exact congrArg EdgeId.dual heq
  rw [← h.lawful.forward_three x hx, ← h.lawful.forward_three y hy, hforward]

theorem Realizes.isLive_of_turned (h : m.Realizes triangles) (ha : m.pool.isLive a.slot = true)
    (hab : m.Turned a b) : m.pool.isLive b.slot = true := by
  induction hab with
  | start => exact ha
  | turn _ hreverse ih =>
      rw [h.eq_turnOf ih hreverse]
      exact h.isLive_turnOf ih

/-- Further turns lead back from where a turn has led. -/
theorem Realizes.turned_back (h : m.Realizes triangles) (ha : m.pool.isLive a.slot = true) :
    m.Turned (h.turnOf a) a := by
  have hlive : ∀ x, m.Turned (h.turnOf a) x → m.pool.isLive x.slot = true :=
    fun x hx => h.isLive_of_turned (h.isLive_turnOf ha) hx
  have hfinite : {x | m.Turned (h.turnOf a) x}.Finite := by
    refine m.pool.directedEdges.finite_toSet.subset fun x hx => ?_
    exact EdgePool.mem_directedEdges.2 (hlive x hx)
  -- the turn maps the edges that are reached to each other, so it misses none of them
  have hinto : h.turnOf '' {x | m.Turned (h.turnOf a) x} ⊆ {x | m.Turned (h.turnOf a) x} := by
    rintro _ ⟨x, hx, rfl⟩
    exact h.turned_turnOf (hlive x hx) hx
  have hone : Set.InjOn h.turnOf {x | m.Turned (h.turnOf a) x} := h.turnOf_injOn.mono hlive
  have honto : h.turnOf '' {x | m.Turned (h.turnOf a) x} = {x | m.Turned (h.turnOf a) x} := by
    apply Set.eq_of_subset_of_ncard_le hinto _ hfinite
    rw [hone.ncard_image]
  have hstart : h.turnOf a ∈ h.turnOf '' {x | m.Turned (h.turnOf a) x} := by
    rw [honto]
    exact Turned.start
  obtain ⟨x, hx, heq⟩ := hstart
  rwa [h.turnOf_injOn (hlive x hx) ha heq] at hx

/-- Turns can be taken back. -/
theorem Realizes.turned_symm (h : m.Realizes triangles) (ha : m.pool.isLive a.slot = true)
    (hab : m.Turned a b) : m.Turned b a := by
  induction hab with
  | start => exact .start
  | turn hax hreverse ih =>
      have hx := h.isLive_of_turned ha hax
      rw [h.eq_turnOf hx hreverse]
      exact (h.turned_back hx).trans ih

/-! ## The triangles along a cycle -/

section Carried

variable {edge : Side → EdgeId} {v : Nat}

/-- The dual of the edge before the first one of a face leads on round its first corner. -/
theorem turned_of_isReading (hcarries : m.pool.Carries (closedFaces triangles) edge)
    {t : Triangle Corner} (ht : IsReading (closedFaces triangles) t)
    (ha : m.Turned a (edge (t.first, t.second))) :
    m.Turned a (edge (t.first, t.third)) := by
  have hdual : edge (t.first, t.third) = (edge (t.third, t.first)).dual :=
    hcarries.edge_swap _ ht.rotate.rotate.mem_sidesOf
  rw [hdual]
  exact ha.turn (answers_of_side? (hcarries.side?_edge t ht)).2.2

/-- What holds of the corner where the first edge ends, and is passed on from corner to corner
by the faces, holds of the corner where any edge ends to which the turn leads. -/
theorem Realizes.turned_induction (h : m.Realizes triangles)
    (hcarries : m.pool.Carries (closedFaces triangles) edge) {u b : Corner}
    {P : Corner → Prop} (hb : (u, b) ∈ sidesOf (closedFaces triangles)) (hstart : P b)
    (hstep : ∀ x y, m.Turned (edge (u, b)) (edge (u, x)) → P x →
      IsReading (closedFaces triangles) ⟨u, x, y⟩ → P y)
    {c : Corner} (hc : (u, c) ∈ sidesOf (closedFaces triangles))
    (hturned : m.Turned (edge (u, b)) (edge (u, c))) : P c := by
  have hreached : ∀ e, m.Turned (edge (u, b)) e →
      ∃ x, (u, x) ∈ sidesOf (closedFaces triangles) ∧ edge (u, x) = e ∧ P x := by
    intro e he
    induction he with
    | start => exact ⟨b, hb, rfl, hstart⟩
    | @turn _ r hx hreverse ih =>
        obtain ⟨x, hside, rfl, hP⟩ := ih
        obtain ⟨⟨a, d, y⟩, ht, heq⟩ := exists_reading hside
        obtain ⟨rfl, rfl⟩ := Prod.mk.inj heq
        have hback := ht.rotate.rotate.mem_sidesOf
        obtain rfl : edge (y, u) = r :=
          Except.ok.inj ((answers_of_side? (hcarries.side?_edge _ ht)).2.2.symm.trans hreverse)
        exact ⟨y, h.closed.swap_mem _ hback, hcarries.edge_swap _ hback, hstep x y hx hP ht⟩
  obtain ⟨x, hside, heq, hP⟩ := hreached _ hturned
  obtain ⟨_, rfl⟩ := Prod.mk.inj (hcarries.edge_inj h.closed hside hc heq)
  exact hP

variable {x y : Triangle Nat} {p q : Nat}

/-- The side of a triangle of the mesh is a side of a face. -/
theorem mem_sidesOf_of_mem_sides (hx : x ∈ triangles) (hp : (v, p) ∈ x.sides) :
    (corner v, corner p) ∈ sidesOf (closedFaces triangles) :=
  mem_sidesOf_closedFaces.2 (.inl ⟨(v, p), mem_sidesOf.2 ⟨x, hx, hp⟩, rfl⟩)

/-- The turn leads from a triangle to the next one round a vertex, and back. -/
theorem Realizes.turned_of_meetAt (h : m.Realizes triangles)
    (hcarries : m.pool.Carries (closedFaces triangles) edge)
    (hdistinct : ∀ t ∈ triangles, t.Distinct) (hx : x ∈ triangles) (hy : y ∈ triangles)
    (hmeet : MeetAt v x y) (hp : (v, p) ∈ x.sides) (hq : (v, q) ∈ y.sides) :
    m.Turned (edge (corner v, corner p)) (edge (corner v, corner q)) := by
  -- from a triangle with the side to `v` on to the one with the side from `v`
  have honward : ∀ {x y : Triangle Nat} {p q w : Nat}, x ∈ triangles → y ∈ triangles →
      (v, p) ∈ x.sides → (v, q) ∈ y.sides → (w, v) ∈ x.sides → (v, w) ∈ y.sides →
      m.Turned (edge (corner v, corner p)) (edge (corner v, corner q)) := by
    intro x y p q w hx hy hp hq hto hfrom
    obtain ⟨c, hrotation⟩ := Triangle.exists_isRotation_of_mem_sides hp
    obtain ⟨d, hback⟩ := Triangle.exists_isRotation_of_mem_sides hto
    obtain ⟨rfl, rfl⟩ := (hdistinct x hx).isRotation_unique hrotation hback.rotate
    obtain ⟨_, hrotation'⟩ := Triangle.exists_isRotation_of_mem_sides hq
    obtain ⟨_, hforth⟩ := Triangle.exists_isRotation_of_mem_sides hfrom
    obtain ⟨rfl, _⟩ := (hdistinct y hy).isRotation_unique hrotation' hforth
    have hreading : IsReading (closedFaces triangles) ⟨corner v, corner p, corner q⟩ :=
      ⟨x.map corner, List.mem_append_left _ (List.mem_map_of_mem hx), hrotation.map corner⟩
    exact turned_of_isReading hcarries hreading .start
  obtain ⟨w, ⟨hfrom, hto⟩ | ⟨hto, hfrom⟩⟩ := hmeet
  · have hlive : m.pool.isLive (edge (corner v, corner q)).slot = true :=
      hcarries.isLive_edge (mem_sidesOf_of_mem_sides hy hq)
    exact h.turned_symm hlive (honward hy hx hq hp hto hfrom)
  · exact honward hx hy hp hq hto hfrom

theorem Realizes.turned_of_joinedAt (h : m.Realizes triangles)
    (hcarries : m.pool.Carries (closedFaces triangles) edge)
    (hdistinct : ∀ t ∈ triangles, t.Distinct) (hx : x ∈ triangles)
    (hjoined : JoinedAt triangles v x y) (hp : (v, p) ∈ x.sides) (hq : (v, q) ∈ y.sides) :
    m.Turned (edge (corner v, corner p)) (edge (corner v, corner q)) := by
  induction hjoined generalizing q with
  | refl =>
      obtain ⟨_, hrotation⟩ := Triangle.exists_isRotation_of_mem_sides hp
      obtain ⟨_, hrotation'⟩ := Triangle.exists_isRotation_of_mem_sides hq
      rw [((hdistinct x hx).isRotation_unique hrotation hrotation').1]
      exact .start
  | @tail y z _ hstep ih =>
      obtain ⟨hy, hz, hmeet⟩ := hstep
      -- the triangle before has a side that leaves the vertex, too
      obtain ⟨r, hr⟩ : ∃ r, (v, r) ∈ y.sides := by
        obtain ⟨w, ⟨hfrom, _⟩ | ⟨hto, _⟩⟩ := hmeet
        · exact ⟨w, hfrom⟩
        · obtain ⟨c, hrotation⟩ := Triangle.exists_isRotation_of_mem_sides hto
          exact ⟨c, hrotation.rotate.mem_sides⟩
      exact (ih hr).trans (h.turned_of_meetAt hcarries hdistinct hy hz hmeet hr hq)

/-- The triangles to which the turn leads from a triangle are joined to it, if those are at
which it comes in from the ghost faces. -/
theorem Realizes.joinedAt_of_turned (h : m.Realizes triangles)
    (hcarries : m.pool.Carries (closedFaces triangles) edge)
    (hnodup : (sidesOf triangles).Nodup) (hx : x ∈ triangles) (hp : (v, p) ∈ x.sides)
    (hhull : ∀ t ∈ triangles, ∀ w, (v, w) ∈ t.sides → (v, w) ∈ hullSides triangles →
      m.Turned (edge (corner v, corner p)) (edge (corner v, corner w)) → JoinedAt triangles v x t)
    (hy : y ∈ triangles) (hq : (v, q) ∈ y.sides)
    (hturned : m.Turned (edge (corner v, corner p)) (edge (corner v, corner q))) :
    JoinedAt triangles v x y := by
  have hall : ∀ t ∈ triangles, ∀ w, corner q = corner w → (v, w) ∈ t.sides →
      JoinedAt triangles v x t := by
    refine h.turned_induction hcarries (P := fun c => ∀ t ∈ triangles, ∀ w, c = corner w →
      (v, w) ∈ t.sides → JoinedAt triangles v x t) (mem_sidesOf_of_mem_sides hx hp) ?_ ?_
      (mem_sidesOf_of_mem_sides hy hq) hturned
    · intro t ht w hw hside
      rw [← Assembly.corner_injective hw] at hside
      rw [eq_of_mem_sides hnodup ht hx hside hp]
      exact .refl
    · rintro b _ hreached hjoined hreading t ht w rfl hside
      cases b with
      | none =>
          obtain ⟨w', hmem, heq⟩ := hull_of_isReading hreading
          rw [← Assembly.corner_injective heq] at hmem
          exact hhull t ht w hside hmem (turned_of_isReading hcarries hreading hreached)
      | some u =>
          have hreal : (none : Corner) ∉
              (⟨corner v, some u, corner w⟩ : Triangle Corner).toList := by
            simp [Triangle.toList, corner]
          obtain ⟨face, hface, ⟨_, r, _⟩, hrotation, heq⟩ :=
            exists_triangle_of_isReading hreading hreal
          simp only [Triangle.map, Triangle.mk.injEq] at heq
          obtain ⟨hv, hu, hw⟩ := heq
          obtain rfl := Assembly.corner_injective hv
          obtain rfl := Assembly.corner_injective hw
          have hbefore := hjoined face hface r hu hrotation.mem_sides
          exact hbefore.tail ⟨hface, ht, w, .inr ⟨hrotation.rotate.rotate.mem_sides, hside⟩⟩
  exact hall y hy q rfl hq

/-- The turn leads from the edge along a side of one triangle to the edge along a side of
another if the triangles are joined. -/
theorem Realizes.turned_iff (h : m.Realizes triangles)
    (hcarries : m.pool.Carries (closedFaces triangles) edge)
    (hdistinct : ∀ t ∈ triangles, t.Distinct) (hx : x ∈ triangles) (hy : y ∈ triangles)
    (hp : (v, p) ∈ x.sides) (hq : (v, q) ∈ y.sides) :
    m.Turned (edge (corner v, corner p)) (edge (corner v, corner q)) ↔
      JoinedAt triangles v x y := by
  obtain ⟨⟨hnodup, hleft, _⟩, _⟩ := (closedSurface_closedFaces_iff hdistinct).1 h.closed
  have hlive : m.pool.isLive (edge (corner v, corner p)).slot = true :=
    hcarries.isLive_edge (mem_sidesOf_of_mem_sides hx hp)
  constructor
  · intro hturned
    by_cases hexterior : ∃ s ∈ triangles, ∃ u, (v, u) ∈ s.sides ∧ (v, u) ∈ hullSides triangles ∧
        m.Turned (edge (corner v, corner p)) (edge (corner v, corner u))
    case pos =>
      -- seen from the one triangle where the turn comes in, both are joined to it
      obtain ⟨s, hs, u, hu, hhull, hreached⟩ := hexterior
      have hback := h.turned_symm hlive hreached
      have honly : ∀ t ∈ triangles, ∀ w, (v, w) ∈ t.sides → (v, w) ∈ hullSides triangles →
          m.Turned (edge (corner v, corner u)) (edge (corner v, corner w)) →
            JoinedAt triangles v s t := by
        intro t ht w hw hmem _
        have hsame : (v, w) = (v, u) := List.inj_on_of_nodup_map hleft hmem hhull rfl
        rw [hsame] at hw
        rw [eq_of_mem_sides hnodup ht hs hw hu]
        exact .refl
      have hsx := h.joinedAt_of_turned hcarries hnodup hs hu honly hx hp hback
      have hsy := h.joinedAt_of_turned hcarries hnodup hs hu honly hy hq (hback.trans hturned)
      exact hsx.symm.trans hsy
    case neg =>
      refine h.joinedAt_of_turned hcarries hnodup hx hp (fun t ht w hw hmem hreached => ?_) hy hq
        hturned
      exact absurd ⟨t, ht, w, hw, hmem, hreached⟩ hexterior
  · exact fun hjoined => h.turned_of_joinedAt hcarries hdistinct hx hjoined hp hq

/-- The turn leads in from the ghost faces to a triangle. -/
theorem Realizes.exists_turned_side (h : m.Realizes triangles)
    (hcarries : m.pool.Carries (closedFaces triangles) edge)
    (hdistinct : ∀ t ∈ triangles, t.Distinct) {b : Corner}
    (hb : (corner v, b) ∈ sidesOf (closedFaces triangles)) :
    ∃ x ∈ triangles, ∃ p, (v, p) ∈ x.sides ∧
      m.Turned (edge (corner v, b)) (edge (corner v, corner p)) := by
  obtain ⟨_, hends⟩ := (closedSurface_closedFaces_iff hdistinct).1 h.closed
  have hin : v ∈ (hullSides triangles).map Prod.fst → ∃ x ∈ triangles, ∃ p, (v, p) ∈ x.sides ∧
      m.Turned (edge (corner v, none)) (edge (corner v, corner p)) := by
    intro hv
    obtain ⟨⟨_, p⟩, hside, rfl⟩ := List.mem_map.1 hv
    obtain ⟨x, hx, hp⟩ := mem_sidesOf.1 (mem_hullSides.1 hside).1
    exact ⟨x, hx, p, hp, turned_of_isReading hcarries (isReading_of_hull hside).2 .start⟩
  rcases mem_sidesOf_closedFaces.1 hb with
    ⟨⟨u, p⟩, hs, heq⟩ | ⟨⟨p, u⟩, hs, heq⟩ | ⟨u, hu, heq⟩ | ⟨u, _, heq⟩
  · obtain ⟨x, hx, hp⟩ := mem_sidesOf.1 hs
    obtain ⟨hu, rfl⟩ := Prod.mk.inj heq
    obtain rfl : u = v := Assembly.corner_injective hu
    exact ⟨x, hx, p, hp, .start⟩
  · obtain ⟨hu, rfl⟩ := Prod.mk.inj heq
    obtain rfl : u = v := Assembly.corner_injective hu
    obtain ⟨x, hx, q, hq, hturned⟩ := hin ((hends u).2 (List.mem_map_of_mem hs))
    have hout := turned_of_isReading hcarries (isReading_of_hull hs).1 .start
    exact ⟨x, hx, q, hq, hout.trans hturned⟩
  · obtain ⟨hcorner, rfl⟩ := Prod.mk.inj heq
    obtain rfl : u = v := Assembly.corner_injective hcorner
    exact hin hu
  · exact absurd (congrArg Prod.fst heq) (by simp [corner])

/-- A face at the ghost vertex is one turn at most away from the edge to the ghost vertex. -/
theorem turned_ghost (hcarries : m.pool.Carries (closedFaces triangles) edge)
    {s : Triangle Corner} (ha : m.pool.isLive a.slot = true) (hreads : m.Reads a s)
    (hs : s.first = corner v) (hghost : none ∈ s.toList) :
    m.Turned a (edge (corner v, none)) := by
  obtain ⟨t, ht, rfl⟩ := hcarries.exists_reading ha
  obtain rfl : s = t := hreads.unique (reads_edge hcarries ht)
  obtain ⟨u, b, c⟩ := s
  obtain rfl : u = corner v := hs
  simp only [Triangle.toList, List.mem_cons, List.not_mem_nil, or_false] at hghost
  rcases hghost with hghost | rfl | rfl
  · exact absurd hghost.symm (Option.some_ne_none _)
  · exact .start
  · exact turned_of_isReading hcarries ht .start

end Carried

/-- How the edges in use that leave the vertex `v` hang together in a mesh of some triangles. -/
structure FansAt (m : Mesh) (triangles : List (Triangle Nat)) (v : Nat) : Prop where
  /-- Turns can be taken back, so that the edges form cycles. -/
  symm : ∀ a b : EdgeId, m.pool.isLive a.slot = true → m.Turned a b → m.Turned b a
  /-- The triangles along a cycle are those that are joined to one of them. -/
  turned_iff : ∀ x ∈ triangles, ∀ y ∈ triangles, ∀ p q, (v, p) ∈ x.sides → (v, q) ∈ y.sides →
    ∀ a b, m.RunsAlong a (⟨v⟩, ⟨p⟩) → m.RunsAlong b (⟨v⟩, ⟨q⟩) →
      (m.Turned a b ↔ JoinedAt triangles v x y)
  /-- Every cycle has a triangle. -/
  exists_side : ∀ a : EdgeId, m.pool.isLive a.slot = true → m.origin a = .ok (some ⟨v⟩) →
    ∃ x ∈ triangles, ∃ p b, (v, p) ∈ x.sides ∧ m.RunsAlong b (⟨v⟩, ⟨p⟩) ∧ m.Turned a b
  /-- The ghost faces at the vertex are all on one cycle. -/
  ghosts : ∀ a b : EdgeId, m.pool.isLive a.slot = true → m.pool.isLive b.slot = true →
    ∀ s t, m.Reads a s → m.Reads b t → s.first = corner v → t.first = corner v →
      none ∈ s.toList → none ∈ t.toList → m.Turned a b
  /-- There is a single cycle if the triangles at the vertex are all joined. -/
  fansAround_iff : m.FansAround ⟨v⟩ ↔ ∀ x ∈ triangles, ∀ y ∈ triangles,
    v ∈ x.toList → v ∈ y.toList → JoinedAt triangles v x y

theorem Realizes.fansAt (h : m.Realizes triangles) (hdistinct : ∀ t ∈ triangles, t.Distinct)
    (v : Nat) : FansAt m triangles v := by
  obtain ⟨edge, hcarries, hedge⟩ := h.exists_edge
  have hside : ∀ x ∈ triangles, ∀ p, (v, p) ∈ x.sides →
      m.RunsAlong (edge (corner v, corner p)) (⟨v⟩, ⟨p⟩) :=
    fun x hx p hp => hedge.2 ⟨mem_sidesOf_of_mem_sides hx hp, rfl⟩
  have hturned : ∀ x ∈ triangles, ∀ y ∈ triangles, ∀ p q, (v, p) ∈ x.sides → (v, q) ∈ y.sides →
      ∀ a b, m.RunsAlong a (⟨v⟩, ⟨p⟩) → m.RunsAlong b (⟨v⟩, ⟨q⟩) →
        (m.Turned a b ↔ JoinedAt triangles v x y) := by
    intro x hx y hy p q hp hq a b ha hb
    obtain ⟨_, rfl⟩ := hedge.1 ha
    obtain ⟨_, rfl⟩ := hedge.1 hb
    exact h.turned_iff hcarries hdistinct hx hy hp hq
  have hexists : ∀ a : EdgeId, m.pool.isLive a.slot = true → m.origin a = .ok (some ⟨v⟩) →
      ∃ x ∈ triangles, ∃ p b, (v, p) ∈ x.sides ∧ m.RunsAlong b (⟨v⟩, ⟨p⟩) ∧ m.Turned a b := by
    intro a ha horigin
    obtain ⟨⟨u, b⟩, hmem, rfl⟩ := (hcarries.isLive_iff a).1 ha
    have hu := (hcarries.origin_edge hmem).symm.trans (origin_eq_ok_iff.1 horigin)
    obtain rfl : u = corner v := Option.some.inj hu
    obtain ⟨x, hx, p, hp, hreached⟩ := h.exists_turned_side hcarries hdistinct hmem
    exact ⟨x, hx, p, _, hp, hside x hx p hp, hreached⟩
  refine ⟨fun a b ha => h.turned_symm ha, hturned, hexists, ?_, ?_, ?_⟩
  · intro a b ha hb s t hs ht hfirst hfirst' hghost hghost'
    have hout := turned_ghost hcarries ha hs hfirst hghost
    have hout' := turned_ghost hcarries hb ht hfirst' hghost'
    exact hout.trans (h.turned_symm hb hout')
  · intro hfans x hx y hy hvx hvy
    obtain ⟨p, _, hrotation⟩ := Triangle.exists_isRotation_of_mem hvx
    obtain ⟨q, _, hrotation'⟩ := Triangle.exists_isRotation_of_mem hvy
    have hrun := hside x hx p hrotation.mem_sides
    have hrun' := hside y hy q hrotation'.mem_sides
    rw [← hturned x hx y hy p q hrotation.mem_sides hrotation'.mem_sides _ _ hrun hrun']
    exact hfans _ _ hrun.live hrun'.live hrun.origin_eq hrun'.origin_eq
  · intro hjoined a b ha hb hfrom hfrom'
    obtain ⟨x, hx, p, a', hp, hrun, hreached⟩ := hexists a ha hfrom
    obtain ⟨y, hy, q, b', hq, hrun', hreached'⟩ := hexists b hb hfrom'
    have hround := (hturned x hx y hy p q hp hq a' b' hrun hrun').2
      (hjoined x hx y hy (mem_toList_of_mem_sides hp).1 (mem_toList_of_mem_sides hq).1)
    exact (hreached.trans hround).trans (h.turned_symm hb hreached')

/-- Round a vertex of a mesh that is built, the edges in use form cycles of turns, one for
each class of triangles that are joined round the vertex. So there is a single cycle if and
only if all triangles at the vertex are joined; the build does not look at that. -/
theorem fansAt_of_build {points : Array Point} {options : BuildOptions} {built : Built}
    (h : build points triangles options = .ok built) (v : Nat) :
    FansAt built.mesh triangles v := by
  obtain ⟨hacceptable, rfl⟩ := build_eq_ok_iff.1 h
  exact (realizes_closedMesh hacceptable options).fansAt hacceptable.distinct v

/-! ## Sheets that touch -/

/-- The corners of two sheets that lie over each other. -/
def touchingPoints : Array Point :=
  #[⟨0.0, 0.0, 0.0⟩, ⟨1.0, 0.0, 0.0⟩, ⟨0.0, 1.0, 0.0⟩, ⟨-1.0, -1.0, 0.0⟩, ⟨2.0, 2.0, 0.0⟩,
    ⟨5.0, 4.0, 0.0⟩]

/-- Three triangles that close round the vertex 0, and a strip of three more that sets out
from one of their sides and comes back to the vertex from the outside. -/
def touchingTriangles : List (Triangle Nat) :=
  [⟨0, 1, 2⟩, ⟨0, 2, 3⟩, ⟨0, 3, 1⟩, ⟨2, 1, 4⟩, ⟨2, 4, 5⟩, ⟨5, 4, 0⟩]

theorem acceptable_touching : Acceptable touchingPoints touchingTriangles where
  nonempty := by decide
  admissible := by decide +kernel
  sides_disjoint := by
    have hnodup : (sidesOf touchingTriangles).Nodup := by decide
    exact (List.nodup_flatMap.1 hnodup).2
  hull_isLoop := ⟨[2, 3, 1, 4, 0, 5], by decide, by decide⟩

/-- The two sheets as a mesh. -/
def touchingMesh : Mesh := closedMesh touchingPoints touchingTriangles {}

theorem build_touching : build touchingPoints touchingTriangles {} =
    .ok ⟨touchingMesh, hullSides touchingTriangles⟩ :=
  build_eq_ok_iff.2 ⟨acceptable_touching, rfl⟩

theorem fansAt_touching : build touchingPoints touchingTriangles {} =
      .ok ⟨touchingMesh, hullSides touchingTriangles⟩ ∧
    FansAt touchingMesh touchingTriangles 0 :=
  ⟨build_touching, fansAt_of_build build_touching 0⟩

/-- Where the edges lead that stay among some edges under a turn. -/
theorem Turned.mem_of_closed {es : List EdgeId}
    (hclosed : ∀ e ∈ es, ∃ f ∈ es, m.reverse e = .ok f.dual) (ha : a ∈ es)
    (hab : m.Turned a b) : b ∈ es := by
  induction hab with
  | start => exact ha
  | turn _ hreverse ih =>
      obtain ⟨f, hf, hread⟩ := hclosed _ ih
      rwa [Except.ok.inj (hreverse.symm.trans hread), EdgeId.dual_dual]

/-- The build accepts the two sheets, although the edges that leave the vertex 0 form two
cycles: one for the triangles that close round it, one for the end of the strip and the ghost
faces beside it. -/
theorem touching_not_fansAround :
    build touchingPoints touchingTriangles {} =
        .ok ⟨touchingMesh, hullSides touchingTriangles⟩ ∧
      (∃ t ∈ touchingTriangles, 0 ∈ t.toList) ∧ ¬ touchingMesh.FansAround ⟨0⟩ := by
  refine ⟨build_touching, by decide, fun hfans => ?_⟩
  have hclosed : ∀ e ∈ [EdgeId.mk 0, ⟨5⟩, ⟨9⟩], ∃ f ∈ [EdgeId.mk 0, ⟨5⟩, ⟨9⟩],
      touchingMesh.reverse e = .ok f.dual := by decide +kernel
  have hturned : touchingMesh.Turned ⟨0⟩ ⟨21⟩ := hfans ⟨0⟩ ⟨21⟩ (by decide +kernel)
    (by decide +kernel) (by decide +kernel) (by decide +kernel)
  have hmem := hturned.mem_of_closed hclosed List.mem_cons_self
  exact absurd hmem (by decide)

end Mesh

end TinFaces
