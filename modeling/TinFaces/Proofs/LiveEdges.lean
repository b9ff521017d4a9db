import TinFaces.Proofs.Realizes

/-!
# Around a live edge

What a mesh answers about its live edges, whatever was done to it: each of them
bounds a triangle of live edges that point to each other, and the other direction
of its pair bounds another one (`Mesh.LinksTriangle`).

A live edge begins a reading of a face that the mesh stores, and the answers
about it and its neighbours are read off that reading and its two turns
(`EdgePool.Carries.answers`). That the edges differ is then a matter of the
corners: the corners of a face differ, and different sides have different edges.
-/

namespace TinFaces

namespace EdgePool

variable {pool : EdgePool} {faces : List (Triangle Corner)} {edge : Side → EdgeId}

/-- The dual of the edge of a side starts where the side ends. -/
theorem Carries.side?_dual (h : pool.Carries faces edge) (hclosed : ClosedSurface faces)
    {side : Side} (hside : side ∈ sidesOf faces) :
    ∃ twin, pool.side? (edge side).dual = some twin ∧ twin.origin = side.2 := by
  have horigin := h.origin_edge (hclosed.swap_mem side hside)
  rw [h.edge_swap side hside] at horigin
  exact Option.map_eq_some_iff.1 horigin

/-- Of the three edges around a face and the dual of the first, no two are the
same. -/
theorem Carries.edges_ne (h : pool.Carries faces edge) (hclosed : ClosedSurface faces)
    {t : Triangle Corner} (ht : IsReading faces t) :
    (edge (t.first, t.second) ≠ edge (t.second, t.third) ∧
        edge (t.second, t.third) ≠ edge (t.third, t.first) ∧
        edge (t.first, t.second) ≠ edge (t.third, t.first)) ∧
      (edge (t.first, t.second)).dual ≠ edge (t.first, t.second) ∧
        (edge (t.first, t.second)).dual ≠ edge (t.second, t.third) ∧
        (edge (t.first, t.second)).dual ≠ edge (t.third, t.first) := by
  obtain ⟨h₁₂, h₂₃, h₁₃⟩ := ht.distinct hclosed
  have hfirst := ht.mem_sidesOf
  have hsecond := ht.rotate.mem_sidesOf
  have hthird := ht.rotate.rotate.mem_sidesOf
  have hswap := hclosed.swap_mem _ hfirst
  -- equal edges would have equal sides, and two corners would coincide
  rw [← h.edge_swap _ hfirst]
  refine ⟨⟨fun heq => ?_, fun heq => ?_, fun heq => ?_⟩, fun heq => ?_, fun heq => ?_,
    fun heq => ?_⟩
  · exact h₁₂ (congrArg Prod.fst (h.edge_inj hclosed hfirst hsecond heq))
  · exact h₂₃ (congrArg Prod.fst (h.edge_inj hclosed hsecond hthird heq))
  · exact h₁₃ (congrArg Prod.fst (h.edge_inj hclosed hfirst hthird heq))
  · exact h₁₂ (congrArg Prod.snd (h.edge_inj hclosed hswap hfirst heq))
  · exact h₁₃ (congrArg Prod.snd (h.edge_inj hclosed hswap hsecond heq))
  · exact h₂₃ (congrArg Prod.fst (h.edge_inj hclosed hswap hthird heq))

end EdgePool

namespace Mesh

/-! ## Triangles of edges -/

/-- The edge `e` and its neighbours `f` and `r` around the face on its left: the
three are live, point to each other and join up, and the dual of `e` bounds
another face. -/
structure LinksTriangle (m : Mesh) (e f r : EdgeId) : Prop where
  forward_eq : m.forward e = .ok f
  reverse_eq : m.reverse e = .ok r
  forward_forward : m.forward f = .ok r
  forward_three : m.forward r = .ok e
  live : m.pool.isLive f.slot = true ∧ m.pool.isLive r.slot = true
  distinct : e ≠ f ∧ f ≠ r ∧ e ≠ r
  dual_ne : e.dual ≠ e ∧ e.dual ≠ f ∧ e.dual ≠ r
  /-- The next edge starts where `e` ends. -/
  joins : ∃ v, m.origin f = .ok v ∧ m.destination e = .ok v
  /-- At most one corner of the face is the ghost vertex, and the others are
  vertices of the mesh. -/
  origins : ∃ a b c, m.origin e = .ok a ∧ m.origin f = .ok b ∧ m.origin r = .ok c ∧
    [a, b, c].count none ≤ 1 ∧ ∀ v, some v ∈ [a, b, c] → v.index < m.numVertices
  index_le : e.index ≤ m.surface.maxEdgeIndex

/-- The ends of a side are things of its triangle. -/
theorem mem_toList_of_mem_sides {t : Triangle Nat} {side : Nat × Nat}
    (h : side ∈ t.sides) : side.1 ∈ t.toList ∧ side.2 ∈ t.toList := by
  simp only [Triangle.sides, List.mem_cons, List.not_mem_nil, or_false] at h
  rcases h with rfl | rfl | rfl <;> simp [Triangle.toList]

variable {m : Mesh} {triangles : List (Triangle Nat)}

/-- The corners of the faces are vertices of the mesh, or the ghost vertex. -/
theorem Realizes.index_lt (h : m.Realizes triangles) {t : Triangle Corner}
    (ht : IsReading (closedFaces triangles) t) {v : VertexId} (hv : some v ∈ t.toList) :
    v.index < m.numVertices := by
  obtain ⟨face, hface, hrotation⟩ := ht
  have hmem : some v ∈ face.toList := by
    rcases hrotation with rfl | rfl | rfl
    · exact hv
    · exact (List.perm_append_singleton face.first [face.second, face.third]).mem_iff.1 hv
    · exact (List.perm_append_singleton face.third [face.first, face.second]).mem_iff.2 hv
  rcases List.mem_append.1 hface with hface | hface
  · obtain ⟨t', ht', rfl⟩ := List.mem_map.1 hface
    rw [Triangle.toList_map] at hmem
    obtain ⟨w, hw, heq⟩ := List.mem_map.1 hmem
    rw [← Option.some.inj heq]
    exact h.inRange t' ht' w hw
  · obtain ⟨side, hside, rfl⟩ := List.mem_map.1 hface
    obtain ⟨t', ht', hsides⟩ := mem_sidesOf.1 (mem_hullSides.1 hside).1
    obtain ⟨hfst, hsnd⟩ := mem_toList_of_mem_sides hsides
    simp only [Assembly.ghostFace, Assembly.corner, Triangle.toList, List.mem_cons,
      List.not_mem_nil, Option.some.injEq, reduceCtorEq, or_false] at hmem
    rcases hmem with rfl | rfl
    · exact h.inRange t' ht' _ hsnd
    · exact h.inRange t' ht' _ hfst

/-- Each live edge bounds a triangle of live edges. -/
theorem Realizes.exists_linksTriangle (h : m.Realizes triangles) {e : EdgeId}
    (he : m.pool.isLive e.slot = true) : ∃ f r, m.LinksTriangle e f r := by
  obtain ⟨edge, hcarries⟩ := h.carried
  obtain ⟨t, ht, rfl⟩ := hcarries.exists_reading he
  obtain ⟨hfirst, hsecond, hthird⟩ := hcarries.answers ht
  obtain ⟨hdistinct, hdual⟩ := hcarries.edges_ne h.closed ht
  obtain ⟨twin, htwin, horigin⟩ := hcarries.side?_dual h.closed ht.mem_sidesOf
  have hcorners := ht.distinct h.closed
  refine ⟨edge (t.second, t.third), edge (t.third, t.first), ?_⟩
  obtain ⟨horigin₁, hforward₁, hreverse₁⟩ := answers_of_side? hfirst
  obtain ⟨horigin₂, hforward₂, _⟩ := answers_of_side? hsecond
  obtain ⟨horigin₃, hforward₃, _⟩ := answers_of_side? hthird
  exact {
    forward_eq := hforward₁
    reverse_eq := hreverse₁
    forward_forward := hforward₂
    forward_three := hforward₃
    live := ⟨hcarries.isLive_edge ht.rotate.mem_sidesOf,
      hcarries.isLive_edge ht.rotate.rotate.mem_sidesOf⟩
    distinct := hdistinct
    dual_ne := hdual
    joins := by
      refine ⟨t.second, horigin₂, ?_⟩
      unfold Mesh.destination
      rw [(answers_of_side? htwin).1, horigin]
    origins := by
      refine ⟨t.first, t.second, t.third, horigin₁, horigin₂, horigin₃, ?_, fun v hv => ?_⟩
      · exact List.nodup_iff_count_le_one.1 (by simp [hcorners.1, hcorners.2.1, hcorners.2.2]) _
      · exact h.index_lt ht hv
    index_le := EdgeId.index_le_of_slot_lt (EdgePool.lt_size_of_isLive he) }

/-! ## The check of a mesh -/

/-- The check finds every live edge linked. -/
theorem Realizes.isLinked (h : m.Realizes triangles) {e : EdgeId}
    (he : m.pool.isLive e.slot = true) : m.isLinked e = true := by
  obtain ⟨edge, hcarries⟩ := h.carried
  obtain ⟨t, ht, rfl⟩ := hcarries.exists_reading he
  obtain ⟨hfirst, hsecond, hthird⟩ := hcarries.answers ht
  obtain ⟨twin, htwin, horigin⟩ := hcarries.side?_dual h.closed ht.mem_sidesOf
  have hlive₂ := hcarries.isLive_edge ht.rotate.mem_sidesOf
  have hlive₃ := hcarries.isLive_edge ht.rotate.rotate.mem_sidesOf
  simp only [Triangle.rotate] at hlive₂ hlive₃
  unfold Mesh.isLinked
  rw [hfirst, htwin]
  simp only [hsecond, hthird, hlive₂, hlive₃, horigin, beq_self_eq_true, Bool.and_self]

/-- The check finds a vertex at every live edge. -/
theorem Realizes.touchesVertex (h : m.Realizes triangles) {e : EdgeId}
    (hbase : e.isBase = true) (he : m.pool.isLive e.slot = true) :
    m.touchesVertex e = true := by
  obtain ⟨edge, hcarries⟩ := h.carried
  obtain ⟨t, ht, rfl⟩ := hcarries.exists_reading he
  obtain ⟨hfirst, _, _⟩ := hcarries.answers ht
  obtain ⟨twin, htwin, horigin⟩ := hcarries.side?_dual h.closed ht.mem_sidesOf
  obtain ⟨pair, hpair, hside, hdual⟩ := EdgePool.exists_pair_of_sides hbase hfirst htwin
  -- the two ends differ, so they are not both the ghost vertex
  have hne : t.first ≠ t.second := (ht.distinct h.closed).1
  unfold Mesh.touchesVertex
  rw [hpair]
  simp only [hside, hdual, horigin, Bool.or_eq_true, Option.isSome_iff_ne_none]
  by_contra hghosts
  obtain ⟨hleft, hright⟩ := not_or.1 hghosts
  exact hne ((not_not.1 hleft).trans (not_not.1 hright).symm)

theorem Realizes.isValid (h : m.Realizes triangles) : m.isValid = true := by
  unfold Mesh.isValid
  rw [List.all_eq_true]
  intro e he
  obtain ⟨hbase, hlive⟩ := EdgePool.mem_baseEdges.1 he
  have hdual : m.pool.isLive e.dual.slot = true := by
    rw [EdgeId.slot_dual]
    exact hlive
  rw [h.isLinked hlive, h.isLinked hdual, h.touchesVertex hbase hlive]
  rfl

/-- A mesh has triangles if it has live edges. -/
theorem Realizes.isBootstrapped_iff (h : m.Realizes triangles) :
    m.isBootstrapped = true ↔ ∃ e : EdgeId, m.pool.isLive e.slot = true := by
  obtain ⟨edge, hcarries⟩ := h.carried
  unfold Mesh.isBootstrapped
  rw [decide_eq_true_iff, h.numTriangles_eq]
  constructor
  · intro hpos
    obtain ⟨t, ht⟩ := List.exists_mem_of_length_pos hpos
    have hface : t.map Assembly.corner ∈ closedFaces triangles :=
      List.mem_append_left _ (List.mem_map_of_mem ht)
    have hreading : IsReading (closedFaces triangles) (t.map Assembly.corner) :=
      ⟨_, hface, Triangle.isRotation_refl _⟩
    exact ⟨_, hcarries.isLive_edge hreading.mem_sidesOf⟩
  · intro hsome
    obtain ⟨e, he⟩ := hsome
    obtain ⟨t, ⟨face, hface, _⟩, _⟩ := hcarries.exists_reading he
    rw [List.length_pos_iff]
    rintro rfl
    exact absurd hface List.not_mem_nil

/-- Every mesh that can come about passes its own check; each live edge of it
bounds a triangle; and it has a live edge if it has triangles. -/
theorem Reachable.isValid_and_linksTriangle {m : Mesh} (h : m.Reachable) :
    m.isValid = true ∧
      (∀ e : EdgeId, m.pool.isLive e.slot = true → ∃ f r, m.LinksTriangle e f r) ∧
      (m.isBootstrapped = true ↔ ∃ e : EdgeId, m.pool.isLive e.slot = true) := by
  obtain ⟨triangles, hrealizes⟩ := h.exists_realizes
  exact ⟨hrealizes.isValid, fun _ he => hrealizes.exists_linksTriangle he,
    hrealizes.isBootstrapped_iff⟩

/-- The square with its diagonal as a constraint. -/
theorem square_isValid_and_linksTriangle :
    let m := squareMesh.edit (.addConstraint (.line [⟨0⟩, ⟨2⟩]))
    m.isValid = true ∧
      (∀ e : EdgeId, m.pool.isLive e.slot = true → ∃ f r, m.LinksTriangle e f r) ∧
      (m.isBootstrapped = true ↔ ∃ e : EdgeId, m.pool.isLive e.slot = true) :=
  ((Reachable.build build_square).edit _).isValid_and_linksTriangle

end Mesh

end TinFaces
