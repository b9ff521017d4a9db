import TinFaces.Proofs.RegionTour

/-!
# Which faces lie side by side

A mesh that realizes triangles knows which of their sides meet. The search for an edge
between two vertices finds one exactly if a triangle has a side between them
(`Mesh.Realizes.findEdge_isSome_iff`), and what it finds is the only edge in use that runs
there (`Mesh.Realizes.findEdge_eq_some_iff`). To the left of that edge lies the triangle
with this directed side, or the ghost face beyond the hull if no triangle has it
(`Mesh.Realizes.hasLeftFace`).

So a traversal that reports a triangle by its edges has told its neighbours, too: the dual of
each edge bounds the one other triangle at that side, or a ghost face where the side is on the
hull (`Mesh.Realizes.meetsNeighbours`).
-/

namespace TinFaces

open Assembly (corner sideBetween ghostFace)

/-! ## Sides between two vertices -/

/-- Two vertices are the ends of a side of a face if they are those of a side of a
triangle, in one direction or the other. -/
theorem ClosedSurface.mem_sidesOf_iff {triangles : List (Triangle Nat)}
    (h : ClosedSurface (closedFaces triangles)) {a b : Nat} :
    (corner a, corner b) ∈ sidesOf (closedFaces triangles) ↔
      (a, b) ∈ sidesOf triangles ∨ (b, a) ∈ sidesOf triangles := by
  have hreal : ∀ s ∈ sidesOf triangles, sideBetween s ∈ sidesOf (closedFaces triangles) :=
    fun s hs => mem_sidesOf_closedFaces.2 (.inl ⟨s, hs, rfl⟩)
  constructor
  · intro hside
    rcases mem_sidesOf_closedFaces.1 hside with
      ⟨s, hs, heq⟩ | ⟨s, hs, heq⟩ | ⟨v, _, heq⟩ | ⟨v, _, heq⟩
    · obtain rfl : s = (a, b) := Assembly.sideBetween_injective heq
      exact .inl hs
    · have hswap : (a, b) = s.swap := Assembly.sideBetween_injective heq.symm
      obtain rfl : s = (b, a) := by rw [← Prod.swap_swap s, ← hswap]; rfl
      exact .inr (mem_hullSides.1 hs).1
    · exact absurd (congrArg Prod.snd heq) (by simp [corner])
    · exact absurd (congrArg Prod.fst heq) (by simp [corner])
  · intro hside
    rcases hside with hside | hside
    · exact hreal _ hside
    · exact h.swap_mem _ (hreal _ hside)

/-- A triangle with a side can be read from the start of that side on. -/
theorem Triangle.exists_isRotation_of_mem_sides {α : Type} {t : Triangle α} {a b : α}
    (h : (a, b) ∈ t.sides) : ∃ c, t.IsRotation ⟨a, b, c⟩ := by
  obtain ⟨⟨_, _, c⟩, hrotation, heq⟩ := Triangle.mem_sides_iff.1 h
  cases heq
  exact ⟨c, hrotation⟩

/-- A triangle does not run along a side in both directions. -/
theorem Triangle.Distinct.swap_not_mem_sides {α : Type} {t : Triangle α} (h : t.Distinct)
    {side : α × α} (hside : side ∈ t.sides) : side.swap ∉ t.sides := by
  obtain ⟨h₁₂, h₂₃, h₁₃⟩ := h
  intro hswap
  simp only [Triangle.sides, List.mem_cons, List.not_mem_nil, or_false] at hside hswap
  rcases hside with rfl | rfl | rfl <;>
    simp [Prod.ext_iff, h₁₂, h₂₃, h₁₃, h₁₂.symm, h₂₃.symm, h₁₃.symm] at hswap

namespace Mesh

variable {m : Mesh} {triangles : List (Triangle Nat)} {a b : VertexId} {e : EdgeId}

/-! ## The search for an edge -/

/-- An edge that runs along a segment lets the search succeed. -/
theorem RunsAlong.findEdge_isSome (h : m.RunsAlong e (a, b)) :
    (m.findEdge a b).isSome = true := by
  -- of the two directions of the pair, the search looks at the base
  have hends : ∀ {x : EdgeId} {u w : VertexId}, x.isBase = true → m.RunsAlong x (u, w) →
      ∃ pair, m.pool.pair? x = some pair ∧ pair.base.origin = some u ∧
        pair.dual.origin = some w := by
    intro x u w hbase hrun
    obtain ⟨side, hside, horigin⟩ := Option.map_eq_some_iff.1 (origin_eq_ok_iff.1 hrun.origin_eq)
    obtain ⟨twin, htwin, hdestination⟩ :=
      Option.map_eq_some_iff.1 (origin_eq_ok_iff.1 hrun.destination_eq)
    obtain ⟨pair, hpair, rfl, rfl⟩ := EdgePool.exists_pair_of_sides hbase hside htwin
    exact ⟨pair, hpair, horigin, hdestination⟩
  unfold Mesh.findEdge
  rw [List.findSome?_isSome_iff]
  cases hbase : e.isBase with
  | true =>
      obtain ⟨pair, hpair, ha, hb⟩ := hends hbase h
      refine ⟨e, EdgePool.mem_baseEdges.2 ⟨hbase, h.live⟩, ?_⟩
      simp [hpair, ha, hb]
  | false =>
      have hdual : e.dual.isBase = true := by rw [EdgeId.isBase_dual, hbase]; rfl
      obtain ⟨pair, hpair, hb, ha⟩ := hends hdual h.dual
      refine ⟨e.dual, EdgePool.mem_baseEdges.2 ⟨hdual, h.dual.live⟩, ?_⟩
      simp only [hpair, Option.bind_eq_bind, Option.bind_some, ha, hb, and_self, if_true]
      split <;> rfl

/-- The search finds the one edge in use that runs from `a` to `b`. -/
theorem Realizes.findEdge_eq_some_iff (h : m.Realizes triangles) :
    m.findEdge a b = some e ↔ m.RunsAlong e (a, b) := by
  constructor
  · exact runsAlong_of_findEdge
  · intro hrun
    obtain ⟨found, hfound⟩ := Option.isSome_iff_exists.1 hrun.findEdge_isSome
    rw [hfound, h.runsAlong_unique (runsAlong_of_findEdge hfound) hrun]

/-- Where an edge runs, a triangle has a side, and the edge is that of the side. -/
theorem Realizes.exists_edge (h : m.Realizes triangles) : ∃ edge,
    m.pool.Carries (closedFaces triangles) edge ∧ ∀ {a b : VertexId} {e : EdgeId},
      m.RunsAlong e (a, b) ↔
        (some a, some b) ∈ sidesOf (closedFaces triangles) ∧ edge (some a, some b) = e := by
  obtain ⟨edge, hcarries⟩ := h.carried
  refine ⟨edge, hcarries, fun {a b e} => ⟨fun hrun => ?_, ?_⟩⟩
  · obtain ⟨side, hside, rfl⟩ := (hcarries.isLive_iff e).1 hrun.live
    have hfst := origin_eq_ok_iff.1 hrun.origin_eq
    have hsnd := origin_eq_ok_iff.1 hrun.destination_eq
    rw [hcarries.origin_edge hside] at hfst
    rw [← hcarries.edge_swap side hside,
      hcarries.origin_edge (h.closed.swap_mem side hside)] at hsnd
    obtain rfl : side = (some a, some b) :=
      Prod.ext (Option.some.inj hfst) (Option.some.inj hsnd)
    exact ⟨hside, rfl⟩
  · rintro ⟨hside, rfl⟩
    refine ⟨hcarries.isLive_edge hside, origin_eq_ok_iff.2 (hcarries.origin_edge hside), ?_⟩
    show m.origin (edge (some a, some b)).dual = _
    rw [← hcarries.edge_swap _ hside]
    exact origin_eq_ok_iff.2 (hcarries.origin_edge (h.closed.swap_mem _ hside))

theorem Realizes.findEdge_isSome_iff (h : m.Realizes triangles) :
    (∃ e, m.findEdge a b = some e) ↔
      (a.index, b.index) ∈ sidesOf triangles ∨ (b.index, a.index) ∈ sidesOf triangles := by
  obtain ⟨edge, _, hedge⟩ := h.exists_edge
  rw [← h.closed.mem_sidesOf_iff]
  simp only [h.findEdge_eq_some_iff, hedge, exists_and_left, exists_eq', and_true]
  exact Iff.rfl

/-! ## The face to the left -/

/-- The corners around the left face of `e`, from where it starts, as the mesh answers
them. -/
def Reads (m : Mesh) (e : EdgeId) (t : Triangle Corner) : Prop :=
  ∃ f r, m.forward e = .ok f ∧ m.reverse e = .ok r ∧
    m.origin e = .ok t.first ∧ m.origin f = .ok t.second ∧ m.origin r = .ok t.third

theorem Reads.unique {t t' : Triangle Corner} (h : m.Reads e t) (h' : m.Reads e t') : t = t' := by
  obtain ⟨f, r, hforward, hreverse, h₁, h₂, h₃⟩ := h
  obtain ⟨f', r', hforward', hreverse', h₁', h₂', h₃'⟩ := h'
  cases hforward.symm.trans hforward'
  cases hreverse.symm.trans hreverse'
  obtain ⟨_, _, _⟩ := t
  obtain ⟨_, _, _⟩ := t'
  cases h₁.symm.trans h₁'
  cases h₂.symm.trans h₂'
  cases h₃.symm.trans h₃'
  rfl

/-- The edge of a side has the reading that the side begins on its left. -/
theorem reads_edge {faces : List (Triangle Corner)} {edge : Side → EdgeId}
    (h : m.pool.Carries faces edge) {t : Triangle Corner} (ht : IsReading faces t) :
    m.Reads (edge (t.first, t.second)) t := by
  obtain ⟨hfirst, hsecond, hthird⟩ := h.answers ht
  obtain ⟨horigin, hforward, hreverse⟩ := answers_of_side? hfirst
  exact ⟨_, _, hforward, hreverse, horigin, (answers_of_side? hsecond).1,
    (answers_of_side? hthird).1⟩

/-- What lies to the left of the edge along a side: the triangle with that side, read from
where the side starts, or the ghost face there if no triangle has it. -/
structure HasLeftFace (m : Mesh) (triangles : List (Triangle Nat)) (side : HullSide)
    (e : EdgeId) : Prop where
  triangle : ∀ t ∈ triangles, side ∈ t.sides →
    ∃ c, t.IsRotation ⟨side.1, side.2, c⟩ ∧ m.Reads e ⟨corner side.1, corner side.2, corner c⟩
  ghost : side ∉ sidesOf triangles → m.Reads e ⟨corner side.1, corner side.2, none⟩

/-- To the left of every edge between two vertices lies what the triangles say. -/
theorem Realizes.hasLeftFace (h : m.Realizes triangles) (hrun : m.RunsAlong e (a, b)) :
    m.HasLeftFace triangles (a.index, b.index) e := by
  obtain ⟨edge, hcarries, hedge⟩ := h.exists_edge
  obtain ⟨hside, rfl⟩ := hedge.1 hrun
  constructor
  · intro t ht hmem
    obtain ⟨c, hrotation⟩ := Triangle.exists_isRotation_of_mem_sides hmem
    have hreading : IsReading (closedFaces triangles) ⟨corner a.index, corner b.index, corner c⟩ :=
      ⟨t.map corner, List.mem_append_left _ (List.mem_map_of_mem ht), hrotation.map corner⟩
    exact ⟨c, hrotation, reads_edge hcarries hreading⟩
  · intro hnone
    -- the reverse of the side is on the hull, and the ghost face beyond it begins here
    have hswap : (b.index, a.index) ∈ sidesOf triangles :=
      (h.closed.mem_sidesOf_iff.1 hside).resolve_left hnone
    have hhull : (b.index, a.index) ∈ hullSides triangles := mem_hullSides.2 ⟨hswap, hnone⟩
    have hreading : IsReading (closedFaces triangles) ⟨corner a.index, corner b.index, none⟩ :=
      ⟨ghostFace (b.index, a.index), List.mem_append_right _ (List.mem_map_of_mem hhull),
        Triangle.isRotation_refl _⟩
    exact reads_edge hcarries hreading

/-! ## Neighbours of a reported triangle -/

/-- What an edge bounds that runs back along a side of the triangle `t`: the one other
triangle at that side, or a ghost face where the side is on the hull. -/
structure BoundsBeyond (m : Mesh) (triangles : List (Triangle Nat)) (t : Triangle Nat)
    (side : HullSide) (d : EdgeId) : Prop where
  ghost_iff : m.Reads d ⟨corner side.2, corner side.1, none⟩ ↔ side ∈ hullSides triangles
  other : side ∉ hullSides triangles → ∃ t' ∈ triangles,
    (∀ x ∈ triangles, x ≠ t ∧ (side ∈ x.sides ∨ side.swap ∈ x.sides) ↔ x = t') ∧
    ∃ c, t'.IsRotation ⟨side.2, side.1, c⟩ ∧ m.Reads d ⟨corner side.2, corner side.1, corner c⟩

theorem Realizes.boundsBeyond (h : m.Realizes triangles) (hdistinct : ∀ t ∈ triangles, t.Distinct)
    (hnodup : (sidesOf triangles).Nodup) {t : Triangle Nat} (ht : t ∈ triangles)
    {side : HullSide} (hside : side ∈ t.sides) {d : EdgeId}
    (hrun : m.RunsAlong d (⟨side.2⟩, ⟨side.1⟩)) : m.BoundsBeyond triangles t side d := by
  have hleft : m.HasLeftFace triangles side.swap d := h.hasLeftFace hrun
  have hmem : side ∈ sidesOf triangles := mem_sidesOf.2 ⟨t, ht, hside⟩
  have hcorner : ∀ c, corner c ≠ none := fun _ => Option.some_ne_none _
  constructor
  · rw [mem_hullSides]
    constructor
    · intro hreads
      refine ⟨hmem, fun hswap => ?_⟩
      obtain ⟨t', ht', hside'⟩ := mem_sidesOf.1 hswap
      obtain ⟨c, _, hreads'⟩ := hleft.triangle t' ht' hside'
      exact hcorner c (congrArg Triangle.third (hreads'.unique hreads))
    · exact fun hhull => hleft.ghost hhull.2
  · intro hinner
    have hswap : side.swap ∈ sidesOf triangles := by
      by_contra hnone
      exact hinner (mem_hullSides.2 ⟨hmem, hnone⟩)
    obtain ⟨t', ht', hside'⟩ := mem_sidesOf.1 hswap
    refine ⟨t', ht', fun x hx => ⟨?_, ?_⟩, hleft.triangle t' ht' hside'⟩
    · rintro ⟨hne, hx₁ | hx₂⟩
      · exact absurd (eq_of_mem_sides hnodup hx ht hx₁ hside) hne
      · exact eq_of_mem_sides hnodup hx ht' hx₂ hside'
    · rintro rfl
      refine ⟨?_, .inr hside'⟩
      rintro rfl
      exact (hdistinct x hx).swap_not_mem_sides hside hside'

/-- What the edges around a reported triangle say of it and of the triangles beyond its
sides. They start at the vertices of a triangle `t`, read as `v`, and the dual of each runs
back along its side and bounds what lies beyond. -/
structure MeetsNeighbours (m : Mesh) (triangles : List (Triangle Nat)) (edges : Triangle EdgeId)
    (t v : Triangle Nat) : Prop where
  mem : t ∈ triangles
  rotation : t.IsRotation v
  vertices_eq : m.surface.vertices edges = .ok (some (v.map VertexId.mk))
  neighbors_eq : m.surface.neighbors edges = .ok (edges.map EdgeId.dual)
  beyond : ∀ p ∈ v.sides.zip (edges.map EdgeId.dual).toList,
    m.RunsAlong p.2 (⟨p.1.2⟩, ⟨p.1.1⟩) ∧ m.BoundsBeyond triangles t p.1 p.2

/-- A face that touches no ghost is one of the triangles. -/
theorem exists_triangle_of_isReading {t : Triangle Corner}
    (ht : IsReading (closedFaces triangles) t) (hreal : none ∉ t.toList) :
    ∃ face ∈ triangles, ∃ v, face.IsRotation v ∧ t = v.map corner := by
  obtain ⟨face, hface, hrotation⟩ := ht
  rcases List.mem_append.1 hface with hface | hface
  · obtain ⟨t, ht, rfl⟩ := List.mem_map.1 hface
    rcases hrotation with rfl | rfl | rfl
    · exact ⟨t, ht, t, .inl rfl, rfl⟩
    · exact ⟨t, ht, t.rotate, .inr (.inl rfl), rfl⟩
    · exact ⟨t, ht, t.rotate.rotate, .inr (.inr rfl), rfl⟩
  · obtain ⟨side, _, rfl⟩ := List.mem_map.1 hface
    rcases hrotation with rfl | rfl | rfl <;>
      simp [ghostFace, Triangle.rotate, Triangle.toList] at hreal

/-- Whether the edges are those around a triangle of the mesh, from one of them on. -/
def Realizes.Encloses (h : m.Realizes triangles) (edges : Triangle EdgeId) : Prop :=
  ∃ e : EdgeId, m.pool.isLive e.slot = true ∧ h.lawful.isReal e = true ∧ edges = h.lawful.sides e

/-- The edges around a face are those of its sides, from the side its reading begins with. -/
theorem Realizes.sides_edge (h : m.Realizes triangles) {edge : Side → EdgeId}
    (hcarries : m.pool.Carries (closedFaces triangles) edge) {t : Triangle Corner}
    (ht : IsReading (closedFaces triangles) t) : h.lawful.sides (edge (t.first, t.second)) =
      ⟨edge (t.first, t.second), edge (t.second, t.third), edge (t.third, t.first)⟩ := by
  obtain ⟨hfirst, hsecond, _⟩ := hcarries.answers ht
  show Triangle.mk _ (m.sideAt _).forward (m.sideAt (m.sideAt _).forward).forward = _
  simp only [sideAt_eq hfirst, sideAt_eq hsecond]

/-- A face that is reported does not touch the ghost. -/
theorem Realizes.none_not_mem_of_isReal (h : m.Realizes triangles) {edge : Side → EdgeId}
    (hcarries : m.pool.Carries (closedFaces triangles) edge) {t : Triangle Corner}
    (ht : IsReading (closedFaces triangles) t)
    (hreal : h.lawful.isReal (edge (t.first, t.second)) = true) : none ∉ t.toList := by
  have hsome : ((m.cornersAt (edge (t.first, t.second))).first.isSome &&
      (m.cornersAt (edge (t.first, t.second))).second.isSome &&
      (m.cornersAt (edge (t.first, t.second))).third.isSome) = true := hreal
  rw [cornersAt_edge hcarries ht, Bool.and_eq_true, Bool.and_eq_true] at hsome
  intro hnone
  simp only [Triangle.toList, List.mem_cons, List.not_mem_nil, or_false] at hnone
  rcases hnone with hnone | hnone | hnone <;> simp [← hnone] at hsome

/-- The edges around a triangle know its neighbours. -/
theorem Realizes.meetsNeighbours (h : m.Realizes triangles)
    (hdistinct : ∀ t ∈ triangles, t.Distinct) (hnodup : (sidesOf triangles).Nodup)
    {edges : Triangle EdgeId} (hedges : h.Encloses edges) :
    ∃ t v, m.MeetsNeighbours triangles edges t v := by
  obtain ⟨e, he, hreal, rfl⟩ := hedges
  obtain ⟨edge, hcarries, hedge⟩ := h.exists_edge
  obtain ⟨t, ht, rfl⟩ := hcarries.exists_reading he
  obtain ⟨hfirst, hsecond, hthird⟩ := hcarries.answers ht
  have hsides := h.sides_edge hcarries ht
  have hcorners := h.none_not_mem_of_isReal hcarries ht hreal
  obtain ⟨face, hface, v, hrotation, rfl⟩ := exists_triangle_of_isReading ht hcorners
  have hbeyond : ∀ side ∈ v.sides,
      m.RunsAlong (edge (sideBetween side)).dual (⟨side.2⟩, ⟨side.1⟩) ∧
        m.BoundsBeyond triangles face side (edge (sideBetween side)).dual := by
    intro side hside
    have hmem : side ∈ face.sides := by
      rcases hrotation with rfl | rfl | rfl
      · exact hside
      · exact (Triangle.sides_rotate _).mem_iff.1 hside
      · exact (Triangle.sides_rotate _).mem_iff.1 ((Triangle.sides_rotate _).mem_iff.1 hside)
    have hrun : m.RunsAlong (edge (sideBetween side)) (⟨side.1⟩, ⟨side.2⟩) :=
      hedge.2 ⟨mem_sidesOf_closedFaces.2 (.inl ⟨side, mem_sidesOf.2 ⟨face, hface, hmem⟩, rfl⟩), rfl⟩
    exact ⟨hrun.dual, h.boundsBeyond hdistinct hnodup hface hmem hrun.dual⟩
  refine ⟨face, v, hface, hrotation, ?_, rfl, ?_⟩
  · have h₁ := (answers_of_side? hfirst).1
    have h₂ := (answers_of_side? hsecond).1
    have h₃ := (answers_of_side? hthird).1
    rw [hsides]
    simp only [Triangulation.vertices, surface, h₁, h₂, h₃, bind, Except.bind]
    rfl
  · intro p hp
    have hzip : v.sides.zip ((h.lawful.sides (edge ((v.map corner).first,
        (v.map corner).second))).map EdgeId.dual).toList =
        v.sides.map fun side => (side, (edge (sideBetween side)).dual) := by
      rw [hsides]
      rfl
    rw [hzip] at hp
    obtain ⟨side, hside, rfl⟩ := List.mem_map.1 hp
    exact hbeyond side hside

/-! ## Traversals -/

/-- What is reported of claimed left faces of live edges encloses triangles. -/
theorem Realizes.encloses_of_faces_eq (h : m.Realizes triangles)
    {report : Report VertexId EdgeId} {entries : List EdgeId}
    (hlive : ∀ e ∈ entries, m.pool.isLive e.slot = true)
    (hfaces : Event.faces report.events = entries.map h.lawful.face) {edges : Triangle EdgeId}
    (hedges : edges ∈ report.edgeTriangles) : h.Encloses edges := by
  rw [Report.edgeTriangles, Lawful.edgeTriangles_eq hfaces] at hedges
  obtain ⟨e, he, rfl⟩ := List.mem_map.1 hedges
  obtain ⟨he, hreal⟩ := List.mem_filter.1 he
  exact ⟨e, hlive e he, hreal, rfl⟩

theorem Realizes.encloses_of_mem_scan (h : m.Realizes triangles) {options : WalkOptions}
    {edges : Triangle EdgeId}
    (hedges : edges ∈ (m.surface.toTriangulation.scan options).edgeTriangles) :
    h.Encloses edges := by
  have hbase : ∀ e ∈ m.pool.baseEdges, m.pool.isLive e.slot = true :=
    fun e he => (EdgePool.mem_baseEdges.1 he).2
  obtain ⟨entries, hlive, hfaces⟩ := h.lawful.exists_faces_scan hbase options
  exact h.encloses_of_faces_eq hlive hfaces hedges

/-- A walk starts at the linking edge of a closed chain, or is refused. -/
theorem Realizes.encloses_of_mem_walk (h : m.Realizes triangles) (hregistered : m.Registered)
    {c : Constraint VertexId EdgeId} (hc : c ∈ m.constraints) {options : WalkOptions}
    {edges : Triangle EdgeId} (hedges : edges ∈ (c.walk options).edgeTriangles) :
    h.Encloses edges := by
  obtain ⟨chain, hchain, rfl⟩ := List.mem_map.1 hc
  obtain ⟨id, hid⟩ := exists_chain?_of_mem (Array.mem_toList_iff.1 hchain)
  cases hclosed : chain.closed with
  | false =>
      have hrefused : (m.constraintOf chain).walk options = .refused .notARegion := by
        simp [Constraint.walk, constraintOf, hclosed]
      rw [hrefused] at hedges
      exact absurd hedges List.not_mem_nil
  | true =>
      obtain ⟨link, hlink, hlive, _⟩ := hregistered.link_isRegionBorder hid hclosed
      rw [h.walk_constraintOf hclosed hlink hlive] at hedges
      obtain ⟨entries, hentries, hfaces⟩ := h.lawful.exists_faces_walkFrom hlive options
      exact h.encloses_of_faces_eq hentries hfaces hedges

theorem Realizes.encloses_of_mem_walkRegions (h : m.Realizes triangles)
    (hregistered : m.Registered) {options : WalkOptions} {edges : Triangle EdgeId}
    (hedges : edges ∈
      (m.surface.toTriangulation.walkRegions m.constraints options).edgeTriangles) :
    h.Encloses edges := by
  unfold Triangulation.walkRegions at hedges
  split at hedges
  · obtain ⟨c, hc, hmem⟩ := Constraint.exists_walk_of_mem_walkEach hedges
    exact h.encloses_of_mem_walk hregistered hc hmem
  · exact absurd hedges List.not_mem_nil

/-- Whether a traversal of the mesh, with these options, reports the edges as a triangle: a
scan, the walk of a registered constraint or the tour of them all. -/
def Emits (m : Mesh) (options : WalkOptions) (edges : Triangle EdgeId) : Prop :=
  edges ∈ (m.surface.toTriangulation.scan options).edgeTriangles ∨
    (∃ c ∈ m.constraints, edges ∈ (c.walk options).edgeTriangles) ∨
    edges ∈ (m.surface.toTriangulation.walkRegions m.constraints options).edgeTriangles

/-- What the search for an edge from `a` to `b` has found: the only edge in use that runs
there, whose dual is found the other way. -/
structure FindsEdge (m : Mesh) (triangles : List (Triangle Nat)) (a b : VertexId) (e : EdgeId) :
    Prop where
  runsAlong_iff : ∀ d, m.RunsAlong d (a, b) ↔ d = e
  back : m.findEdge b a = some e.dual
  left : m.HasLeftFace triangles (a.index, b.index) e

theorem Realizes.findsEdge (h : m.Realizes triangles) (hfound : m.findEdge a b = some e) :
    m.FindsEdge triangles a b e := by
  have hrun := runsAlong_of_findEdge hfound
  refine ⟨fun d => ⟨fun hd => h.runsAlong_unique hd hrun, ?_⟩, ?_, h.hasLeftFace hrun⟩
  · rintro rfl
    exact hrun
  · exact h.findEdge_eq_some_iff.2 hrun.dual

/-- A mesh that was built knows which of its triangles meet, whatever edits were made to it
since. Between two vertices there is an edge if a triangle has a side there; it is the only
one, and its left face is the triangle with the side, or else the ghost face. The triangles
that a traversal reports meet their neighbours along the duals of their edges. -/
theorem adjacency_of_build {points : Array Point} {triangles : List (Triangle Nat)}
    {options : BuildOptions} {built : Built} (hbuild : build points triangles options = .ok built)
    (edits : List Edit) :
    let m := built.mesh.editAll edits
    (∀ a b : VertexId,
      ((∃ e, m.findEdge a b = some e) ↔
        (a.index, b.index) ∈ sidesOf triangles ∨ (b.index, a.index) ∈ sidesOf triangles) ∧
      ∀ e, m.findEdge a b = some e → m.FindsEdge triangles a b e) ∧
    ∀ (walk : WalkOptions) (edges : Triangle EdgeId), m.Emits walk edges →
      ∃ t v, m.MeetsNeighbours triangles edges t v := by
  intro m
  have hreachable : m.Reachable := (Reachable.build hbuild).editAll edits
  obtain ⟨hacceptable, rfl⟩ := build_eq_ok_iff.1 hbuild
  have hrealizes : m.Realizes triangles :=
    (realizes_closedMesh hacceptable options).editAll edits
  refine ⟨fun a b => ⟨hrealizes.findEdge_isSome_iff, fun e => hrealizes.findsEdge⟩, ?_⟩
  intro walk edges hemits
  apply hrealizes.meetsNeighbours hacceptable.distinct hacceptable.nodup_sidesOf
  rcases hemits with hscan | ⟨c, hc, hwalk⟩ | htour
  · exact hrealizes.encloses_of_mem_scan hscan
  · exact hrealizes.encloses_of_mem_walk hreachable.registered hc hwalk
  · exact hrealizes.encloses_of_mem_walkRegions hreachable.registered htour

/-- The square with a ring round one of its triangles: the diagonal is found in both
directions, and a scan reports the two triangles beside it. -/
theorem square_adjacency :
    let edits : List Edit := [.addConstraint (.ring [⟨0⟩, ⟨1⟩, ⟨2⟩]), .addVertex ⟨0.5, 0.5, 1.0⟩]
    let m := squareMesh.editAll edits
    build squarePoints squareTriangles { reservedPairs := 1 } =
        .ok ⟨squareMesh, hullSides squareTriangles⟩ ∧
      m.findEdge ⟨0⟩ ⟨2⟩ = some ⟨7⟩ ∧ m.Emits {} ⟨⟨2⟩, ⟨4⟩, ⟨6⟩⟩ ∧
      (∀ a b : VertexId,
        ((∃ e, m.findEdge a b = some e) ↔ (a.index, b.index) ∈ sidesOf squareTriangles ∨
          (b.index, a.index) ∈ sidesOf squareTriangles) ∧
        ∀ e, m.findEdge a b = some e → m.FindsEdge squareTriangles a b e) ∧
      ∀ (walk : WalkOptions) (edges : Triangle EdgeId), m.Emits walk edges →
        ∃ t v, m.MeetsNeighbours squareTriangles edges t v :=
  ⟨build_square, by decide +kernel, .inl (by decide +kernel), adjacency_of_build build_square _⟩

end Mesh

end TinFaces
