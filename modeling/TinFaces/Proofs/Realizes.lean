import TinFaces.Mesh.Register
import TinFaces.Proofs.Acceptance

/-!
# Meshes and the triangles they store

`Mesh.Realizes m triangles` says that the live edges of a mesh are the sides of
the triangles and of the ghost faces beyond their hull, linked face by face. It
is what is left of the invariant of an assembly once the assembly is over:

* the side table has become a function from sides to edges, which sends the
  reverse of a side to the dual of its edge (`EdgePool.Carries`);
* every other slot of the pool is out of use.

A build makes such a mesh of what it accepts (`Mesh.realizes_closedMesh`), the
empty mesh realizes no triangles, and the edits that a mesh allows afterwards
keep what it realizes (`Mesh.Realizes.editAll`). So every mesh that can come
about realizes some triangles (`Mesh.Reachable.exists_realizes`).
-/

namespace TinFaces

/-! ## Readings -/

/-- A face of the list, read from one of its corners on. -/
def IsReading (faces : List (Triangle Corner)) (t : Triangle Corner) : Prop :=
  ∃ face ∈ faces, face.IsRotation t

section Readings

variable {faces : List (Triangle Corner)} {t : Triangle Corner}

theorem IsReading.rotate (h : IsReading faces t) : IsReading faces t.rotate := by
  obtain ⟨face, hface, hrotation⟩ := h
  exact ⟨face, hface, hrotation.rotate⟩

theorem IsReading.mem_sidesOf (h : IsReading faces t) : (t.first, t.second) ∈ sidesOf faces := by
  obtain ⟨face, hface, hrotation⟩ := h
  exact TinFaces.mem_sidesOf.2 ⟨face, hface, hrotation.mem_sides⟩

/-- Every side begins a reading. -/
theorem exists_reading {side : Side} (h : side ∈ sidesOf faces) :
    ∃ t, IsReading faces t ∧ side = (t.first, t.second) := by
  obtain ⟨face, hface, hside⟩ := mem_sidesOf.1 h
  obtain ⟨t, hrotation, hfirst⟩ := Triangle.mem_sides_iff.1 hside
  exact ⟨t, ⟨face, hface, hrotation⟩, hfirst⟩

theorem IsReading.distinct (h : IsReading faces t) (hclosed : ClosedSurface faces) :
    t.Distinct := by
  obtain ⟨face, hface, hrotation⟩ := h
  exact hrotation.distinct (hclosed.distinct face hface)

end Readings

/-! ## Pools that carry faces -/

namespace EdgePool

/-- The live edges of a pool are those of the sides of some faces, and are linked
face by face. -/
structure Carries (pool : EdgePool) (faces : List (Triangle Corner)) (edge : Side → EdgeId) :
    Prop where
  isLive_iff : ∀ e : EdgeId, pool.isLive e.slot = true ↔ ∃ side ∈ sidesOf faces, edge side = e
  edge_swap : ∀ side ∈ sidesOf faces, edge side.swap = (edge side).dual
  side?_edge : ∀ t, IsReading faces t → pool.side? (edge (t.first, t.second)) =
    some ⟨t.first, edge (t.second, t.third), edge (t.third, t.first)⟩

variable {pool : EdgePool} {faces : List (Triangle Corner)} {edge : Side → EdgeId}

theorem Carries.isLive_edge (h : pool.Carries faces edge) {side : Side}
    (hside : side ∈ sidesOf faces) : pool.isLive (edge side).slot = true :=
  (h.isLive_iff _).2 ⟨side, hside, rfl⟩

/-- A live edge begins a reading of its left face. -/
theorem Carries.exists_reading (h : pool.Carries faces edge) {e : EdgeId}
    (he : pool.isLive e.slot = true) : ∃ t, IsReading faces t ∧ edge (t.first, t.second) = e := by
  obtain ⟨side, hside, rfl⟩ := (h.isLive_iff e).1 he
  obtain ⟨t, ht, rfl⟩ := TinFaces.exists_reading hside
  exact ⟨t, ht, rfl⟩

/-- What is stored for the three sides of a face, from one of its corners on. -/
theorem Carries.answers (h : pool.Carries faces edge) {t : Triangle Corner}
    (ht : IsReading faces t) :
    pool.side? (edge (t.first, t.second)) =
        some ⟨t.first, edge (t.second, t.third), edge (t.third, t.first)⟩ ∧
      pool.side? (edge (t.second, t.third)) =
        some ⟨t.second, edge (t.third, t.first), edge (t.first, t.second)⟩ ∧
      pool.side? (edge (t.third, t.first)) =
        some ⟨t.third, edge (t.first, t.second), edge (t.second, t.third)⟩ :=
  ⟨h.side?_edge t ht, h.side?_edge t.rotate ht.rotate,
    h.side?_edge t.rotate.rotate ht.rotate.rotate⟩

theorem Carries.origin_edge (h : pool.Carries faces edge) {side : Side}
    (hside : side ∈ sidesOf faces) :
    (pool.side? (edge side)).map EdgeSide.origin = some side.1 := by
  obtain ⟨t, ht, rfl⟩ := TinFaces.exists_reading hside
  rw [h.side?_edge t ht]
  rfl

/-- Two sides have different edges, because an edge has one origin and its dual
another. -/
theorem Carries.edge_inj (h : pool.Carries faces edge) (hclosed : ClosedSurface faces)
    {a b : Side} (ha : a ∈ sidesOf faces) (hb : b ∈ sidesOf faces) (heq : edge a = edge b) :
    a = b := by
  have hfst := h.origin_edge ha
  rw [heq, h.origin_edge hb] at hfst
  have hsnd := h.origin_edge (hclosed.swap_mem a ha)
  rw [h.edge_swap a ha, heq, ← h.edge_swap b hb, h.origin_edge (hclosed.swap_mem b hb)] at hsnd
  exact Prod.ext (Option.some.inj hfst).symm (Option.some.inj hsnd).symm

/-- Pools that are in use alike, and store the same, carry the same faces. -/
theorem Carries.of_eq (h : pool.Carries faces edge) {pool' : EdgePool}
    (hlive : ∀ slot, pool'.isLive slot = pool.isLive slot)
    (hside : ∀ e, pool'.side? e = pool.side? e) : pool'.Carries faces edge where
  isLive_iff e := by
    rw [hlive]
    exact h.isLive_iff e
  edge_swap := h.edge_swap
  side?_edge t ht := by
    rw [hside]
    exact h.side?_edge t ht

end EdgePool

/-! ## From an assembly to a pool -/

namespace Assembly

/-- The edge of a side that bounds a face. -/
def edgeOf (s : Assembly) (side : Side) : EdgeId := (s.edge? side).getD ⟨0⟩

theorem edgeOf_eq {s : Assembly} (h : s.keys.Nodup) {side : Side} {e : EdgeId}
    (he : (side, e) ∈ s.sides) : s.edgeOf side = e := by
  rw [edgeOf, (edge?_eq_some_iff h).2 he]
  rfl

/-- Once every side has its reverse, a pool that has given the reserved slots
back carries the faces. -/
theorem Holds.carries {reserved : Nat} {faces : List (Triangle Corner)} {s : Assembly}
    (h : s.Holds reserved faces)
    (hswap : ∀ side ∈ sidesOf faces, side.swap ∈ sidesOf faces) {pool : EdgePool}
    (hlive : ∀ slot, pool.isLive slot = true ↔ reserved ≤ slot ∧ s.pool.isLive slot = true)
    (hside : ∀ e : EdgeId, reserved ≤ e.slot → pool.side? e = s.pool.side? e) :
    pool.Carries faces s.edgeOf := by
  have hnodup := h.sound.nodup
  -- the table as a function on the sides of the faces
  have hentry : ∀ side ∈ sidesOf faces, (side, s.edgeOf side) ∈ s.sides := by
    intro side hside
    obtain ⟨e, he⟩ := Assembly.mem_keys_iff.1 (h.mem_keys_iff.2 hside)
    rw [edgeOf_eq hnodup he]
    exact he
  have hmem : ∀ {side : Side} {e : EdgeId}, (side, e) ∈ s.sides → side ∈ sidesOf faces :=
    fun he => h.mem_keys_iff.1 (Assembly.mem_keys_iff.2 ⟨_, he⟩)
  have hdual : ∀ side ∈ sidesOf faces, s.edgeOf side.swap = (s.edgeOf side).dual :=
    fun side hs => h.sound.twin side _ _ (hentry side hs) (hentry _ (hswap side hs))
  refine ⟨fun e => ?_, hdual, fun t ht => ?_⟩
  · rw [hlive]
    constructor
    · intro hslot
      obtain ⟨hge, hused⟩ := hslot
      obtain ⟨side, d, hd, hslot⟩ := h.sound.used e.slot hge (EdgePool.lt_size_of_isLive hused)
      -- the entry of the slot belongs to `e` or to its dual
      rcases EdgeId.eq_or_eq_dual hslot.symm with rfl | rfl
      · exact ⟨side, hmem hd, edgeOf_eq hnodup hd⟩
      · refine ⟨side.swap, hswap side (hmem hd), ?_⟩
        rw [hdual side (hmem hd), edgeOf_eq hnodup hd]
    · intro hedge
      obtain ⟨side, hs, rfl⟩ := hedge
      exact ⟨h.sound.slot_ge side _ (hentry side hs), h.sound.live side _ (hentry side hs)⟩
  · obtain ⟨face, hface, hrotation⟩ := ht
    obtain ⟨e₁, e₂, e₃, h₁, h₂, h₃, hlink₁, hlink₂, hlink₃⟩ := h.linked face hface
    rw [hside _ (h.sound.slot_ge _ _ (hentry _ (TinFaces.mem_sidesOf.2
      ⟨face, hface, hrotation.mem_sides⟩)))]
    rcases hrotation with rfl | rfl | rfl
    · rw [edgeOf_eq hnodup h₁, edgeOf_eq hnodup h₂, edgeOf_eq hnodup h₃]
      exact hlink₁
    · simp only [Triangle.rotate]
      rw [edgeOf_eq hnodup h₁, edgeOf_eq hnodup h₂, edgeOf_eq hnodup h₃]
      exact hlink₂
    · simp only [Triangle.rotate]
      rw [edgeOf_eq hnodup h₁, edgeOf_eq hnodup h₂, edgeOf_eq hnodup h₃]
      exact hlink₃

end Assembly

/-! ## Meshes -/

namespace Mesh

/-- A mesh that stores exactly some triangles and the ghost faces beyond their
hull. -/
structure Realizes (m : Mesh) (triangles : List (Triangle Nat)) : Prop where
  closed : ClosedSurface (closedFaces triangles)
  numTriangles_eq : m.numTriangles = triangles.length
  inRange : ∀ t ∈ triangles, ∀ v ∈ t.toList, v < m.numVertices
  carried : ∃ edge, m.pool.Carries (closedFaces triangles) edge

/-- A mesh answers what its pool stores. -/
theorem answers_of_side? {m : Mesh} {e : EdgeId} {side : EdgeSide}
    (h : m.pool.side? e = some side) :
    m.origin e = .ok side.origin ∧ m.forward e = .ok side.forward ∧
      m.reverse e = .ok side.reverse := by
  have hread := EdgePool.side_eq_ok h
  unfold Mesh.origin Mesh.forward Mesh.reverse
  rw [hread]
  exact ⟨rfl, rfl, rfl⟩

/-- An empty pool carries no faces. -/
theorem realizes_empty : ({} : Mesh).Realizes [] where
  closed := ⟨fun _ h => absurd h List.not_mem_nil, List.nodup_nil,
    fun _ h => absurd h List.not_mem_nil⟩
  numTriangles_eq := rfl
  inRange _ h := absurd h List.not_mem_nil
  carried := by
    refine ⟨fun _ => ⟨0⟩, fun e => ⟨fun h => ?_, ?_⟩, ?_, ?_⟩
    · exact absurd (EdgePool.lt_size_of_isLive h) (Nat.not_lt_zero _)
    · intro hedge
      obtain ⟨_, hside, _⟩ := hedge
      exact absurd hside List.not_mem_nil
    · exact fun _ hside => absurd hside List.not_mem_nil
    · rintro _ ⟨_, hface, _⟩
      exact absurd hface List.not_mem_nil

/-- A build makes a mesh of the triangles that it accepts. -/
theorem realizes_closedMesh {points : Array Point} {triangles : List (Triangle Nat)}
    (h : Acceptable points triangles) (options : BuildOptions) :
    (closedMesh points triangles options).Realizes triangles where
  closed := h.closedSurface
  numTriangles_eq := rfl
  inRange t ht := (h.admissible t ht).inRange
  carried := by
    obtain ⟨_, hfree, hsize⟩ := @EdgePool.reserve_eq {} rfl options.reservedPairs
    have hholds := holds_closedAssembly hfree h.distinct h.closedSurface.nodup
    have hreserved : (({} : EdgePool).reserve options.reservedPairs).2.pairs.size =
        options.reservedPairs := hsize.trans (Nat.zero_add _)
    rw [hreserved] at hholds
    obtain ⟨hlive, hpair⟩ := @EdgePool.foldl_deallocate_reserved
      (closedAssembly (({} : EdgePool).reserve options.reservedPairs).2 triangles).pool
      options.reservedPairs
    refine ⟨_, hholds.carries h.closedSurface.swap_mem hlive fun e he => ?_⟩
    exact congrArg (Option.map (·.side e)) (hpair e he)

/-! ## Edits -/

/-- A change that a mesh allows once it is there. -/
inductive Edit where
  | addVertex (p : Point)
  | addConstraint (chain : Chain)

/-- A mesh after an edit. A chain that is refused leaves it as it was. -/
def edit (m : Mesh) : Edit → Mesh
  | .addVertex p => (m.addVertex p).2
  | .addConstraint chain =>
      match m.register chain with
      | .ok registration => registration.mesh
      | .error _ => m

/-- A mesh after some edits in turn. -/
def editAll (m : Mesh) (edits : List Edit) : Mesh := edits.foldl edit m

/-- A chain that is refused leaves the mesh as it was. -/
theorem edit_of_error {m : Mesh} {chain : Chain} {error : Error}
    (h : m.chainEdges chain = .error error) : m.edit (.addConstraint chain) = m := by
  simp only [edit, register, h]
  rfl

theorem edit_of_ok {m : Mesh} {chain : Chain} {edges : List EdgeId}
    (h : m.chainEdges chain = .ok edges) :
    m.edit (.addConstraint chain) = (m.store chain edges).mesh := by
  simp only [edit, register, h]
  rfl

/-- A chain is refused and leaves the mesh as it was, or is stored with the edges
along its segments. -/
theorem edit_addConstraint (m : Mesh) (chain : Chain) :
    m.edit (.addConstraint chain) = m ∨ ∃ edges, m.chainEdges chain = .ok edges ∧
      m.edit (.addConstraint chain) = (m.store chain edges).mesh := by
  cases h : m.chainEdges chain with
  | error _ => exact .inl (edit_of_error h)
  | ok edges => exact .inr ⟨edges, rfl, edit_of_ok h⟩

/-- No edit touches a side or takes a pair into use. -/
theorem sides_edit (m : Mesh) (change : Edit) :
    (∀ slot, (m.edit change).pool.isLive slot = m.pool.isLive slot) ∧
      ∀ e, (m.edit change).pool.side? e = m.pool.side? e := by
  cases change with
  | addVertex p => exact ⟨fun _ => rfl, fun _ => rfl⟩
  | addConstraint chain =>
      rcases m.edit_addConstraint chain with hsame | ⟨edges, _, hstored⟩
      · rw [hsame]
        exact ⟨fun _ => rfl, fun _ => rfl⟩
      · rw [hstored]
        exact (EdgePool.constrain_eq m.pool edges chain.closed).2

theorem sides_editAll (m : Mesh) (edits : List Edit) :
    (∀ slot, (m.editAll edits).pool.isLive slot = m.pool.isLive slot) ∧
      ∀ e, (m.editAll edits).pool.side? e = m.pool.side? e := by
  induction edits generalizing m with
  | nil => exact ⟨fun _ => rfl, fun _ => rfl⟩
  | cons change rest ih =>
      obtain ⟨hlive, hside⟩ := m.sides_edit change
      obtain ⟨hlive', hside'⟩ := ih (m.edit change)
      exact ⟨fun slot => (hlive' slot).trans (hlive slot), fun e => (hside' e).trans (hside e)⟩

/-- No edit needs a pair. -/
theorem maxIndex_edit (m : Mesh) (change : Edit) :
    (m.edit change).pool.maxIndex = m.pool.maxIndex := by
  cases change with
  | addVertex p => rfl
  | addConstraint chain =>
      rcases m.edit_addConstraint chain with hsame | ⟨edges, _, hstored⟩
      · rw [hsame]
      · rw [hstored]
        exact (m.pool.baseEdges_constrain edges chain.closed).2

theorem maxIndex_editAll (m : Mesh) (edits : List Edit) :
    (m.editAll edits).pool.maxIndex = m.pool.maxIndex := by
  induction edits generalizing m with
  | nil => rfl
  | cons change rest ih => exact (ih (m.edit change)).trans (maxIndex_edit m change)

/-- An edit keeps what the mesh realizes. -/
theorem Realizes.edit {m : Mesh} {triangles : List (Triangle Nat)} (h : m.Realizes triangles)
    (change : Edit) : (m.edit change).Realizes triangles := by
  cases change with
  | addVertex p =>
      refine ⟨h.closed, h.numTriangles_eq, fun t ht v hv => ?_, h.carried⟩
      have hlt := h.inRange t ht v hv
      show v < (m.vertices.push p).size
      rw [Array.size_push]
      exact Nat.lt_succ_of_lt hlt
  | addConstraint chain =>
      rcases m.edit_addConstraint chain with hsame | ⟨edges, _, hstored⟩
      · rw [hsame]
        exact h
      · obtain ⟨_, hlive, hside⟩ := EdgePool.constrain_eq m.pool edges chain.closed
        obtain ⟨edge, hcarried⟩ := h.carried
        rw [hstored]
        exact ⟨h.closed, h.numTriangles_eq, h.inRange, edge, hcarried.of_eq hlive hside⟩

theorem Realizes.editAll {m : Mesh} {triangles : List (Triangle Nat)} (h : m.Realizes triangles)
    (edits : List Edit) : (m.editAll edits).Realizes triangles := by
  induction edits generalizing m with
  | nil => exact h
  | cons change rest ih => exact ih (h.edit change)

/-! ## Reachable meshes -/

/-- The meshes that can come about. A copy of a mesh is the same value, so copying
is no step. -/
inductive Reachable : Mesh → Prop where
  | empty : Reachable {}
  | withCapacity {numVertices numTriangles : Nat} {m : Mesh}
      (h : withCapacity numVertices numTriangles = .ok m) : Reachable m
  | build {points : Array Point} {triangles : List (Triangle Nat)} {options : BuildOptions}
      {built : Built} (h : build points triangles options = .ok built) : Reachable built.mesh
  | edit {m : Mesh} (h : Reachable m) (change : Edit) : Reachable (m.edit change)

theorem eq_of_withCapacity_eq_ok {numVertices numTriangles : Nat} {m : Mesh}
    (h : withCapacity numVertices numTriangles = .ok m) : m = {} := by
  unfold Mesh.withCapacity at h
  simp only [bind_eq_ok_iff] at h
  obtain ⟨_, _, _, _, heq⟩ := h
  exact (Except.ok.inj heq).symm

/-- Every mesh that can come about realizes some triangles, whose hull is a single
loop. -/
theorem Reachable.exists_realizes_isLoop {m : Mesh} (h : Reachable m) :
    ∃ triangles, m.Realizes triangles ∧ IsLoop (hullSides triangles) := by
  have hempty : ({} : Mesh).Realizes [] ∧ IsLoop (hullSides []) :=
    ⟨realizes_empty, [], List.nodup_nil, List.Perm.refl _⟩
  induction h with
  | empty => exact ⟨[], hempty⟩
  | withCapacity h =>
      rw [eq_of_withCapacity_eq_ok h]
      exact ⟨[], hempty⟩
  | @build points triangles options _ h =>
      obtain ⟨hacceptable, rfl⟩ := build_eq_ok_iff.1 h
      exact ⟨triangles, realizes_closedMesh hacceptable options, hacceptable.hull_isLoop⟩
  | edit _ change ih =>
      obtain ⟨triangles, hrealizes, hloop⟩ := ih
      exact ⟨triangles, hrealizes.edit change, hloop⟩

theorem Reachable.exists_realizes {m : Mesh} (h : Reachable m) :
    ∃ triangles, m.Realizes triangles := by
  obtain ⟨triangles, hrealizes, _⟩ := h.exists_realizes_isLoop
  exact ⟨triangles, hrealizes⟩

/-- Edits of a mesh that can come about make another one. -/
theorem Reachable.editAll {m : Mesh} (h : Reachable m) (edits : List Edit) :
    Reachable (m.editAll edits) := by
  induction edits generalizing m with
  | nil => exact h
  | cons change rest ih => exact ih (h.edit change)

end Mesh

end TinFaces
